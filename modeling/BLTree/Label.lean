import BLTree.Condition
import BLTree.Identifier

/-!
# Statement labels

A label says what construct a node of a statement tree is, together with exactly the payload that
the construct needs. Its kind forgets the payload and fixes the number of children.
-/

namespace BLTree

inductive Kind where
  | block
  | ifThen
  | ifElse
  | whileDo
  | call
  deriving DecidableEq, Ord

namespace Kind

def all : List Kind := [block, ifThen, ifElse, whileDo, call]

def spelling : Kind → String
  | block => "BLOCK"
  | ifThen => "IF"
  | ifElse => "IF_ELSE"
  | whileDo => "WHILE"
  | call => "CALL"

/-- How many children a node of this kind has; a block has any number. -/
def arity? : Kind → Option Nat
  | block => none
  | ifThen | whileDo => some 1
  | ifElse => some 2
  | call => some 0

end Kind

inductive Label where
  | block
  | ifThen (guard : Condition)
  | ifElse (guard : Condition)
  | whileDo (guard : Condition)
  | call (name : Identifier)
  deriving DecidableEq

namespace Label

def kind : Label → Kind
  | block => .block
  | ifThen _ => .ifThen
  | ifElse _ => .ifElse
  | whileDo _ => .whileDo
  | call _ => .call

def condition? : Label → Option Condition
  | ifThen guard | ifElse guard | whileDo guard => some guard
  | block | call _ => none

def identifier? : Label → Option Identifier
  | call name => some name
  | _ => none

/-- The label as `(KIND,condition,identifier)`, with `?` for a payload that it does not have. -/
def chars (label : Label) : List Char :=
  '(' :: label.kind.spelling.toList ++
    ',' :: (label.condition?.elim "?" Condition.spelling).toList ++
    ',' :: (label.identifier?.elim "?" Identifier.text).toList ++ [')']

def toText (label : Label) : String := String.ofList label.chars

end Label

end BLTree

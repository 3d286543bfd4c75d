import BLTree.Statement.Basic

/-!
# The editing kernel

Blocks are edited by position. The four other constructs are assembled from their parts, which
replaces the receiver, and disassembled into their parts, which leaves an empty block. Every
operation checks its preconditions, in the order in which they are written here, before it changes
anything.
-/

namespace BLTree.Statement

open Edit

/-- Edits the tree of a statement. -/
def onTree {α : Type} (edit : Edit (Tree Label) α) : Edit Statement α :=
  within tree (fun t _ ↦ ⟨t⟩) edit

/-- Gives the statement away and leaves an empty block. -/
def take : Edit Statement Statement := do
  let s ← get
  set emptyBlock
  return s

def clear : Edit Statement Unit := set emptyBlock

/-- Splits the root off and leaves an empty block. -/
def takeApart : Edit Statement (Label × List (Tree Label)) := do
  let parts ← onTree Tree.decompose
  set emptyBlock
  return parts

/-- The number of statements in a block. -/
def lengthOfBlock (s : Statement) : Except Violation Nat := do
  unless ← s.isKind .block do throw .receiverNotBlock
  return s.tree.children.length

def addToBlock (position : Nat) (member : Statement) : Edit Statement Unit := do
  let receiver ← get
  require (← check (receiver.isKind .block)) .receiverNotBlock
  require (decide (position ≤ (← check receiver.lengthOfBlock))) .insertionPastEnd
  require (!(← check (member.isKind .block))) .memberIsBlock
  let (label, children) ← onTree Tree.decompose
  require (decide (position ≤ children.length)) (.insertionIndex position children.length)
  onTree (Tree.compose label (children.insertIdx position member.tree))

def removeFromBlock (position : Nat) : Edit Statement Statement := do
  let receiver ← get
  require (← check (receiver.isKind .block)) .receiverNotBlock
  require (decide (position < (← check receiver.lengthOfBlock))) .removalPastEnd
  let (label, children) ← onTree Tree.decompose
  match children[position]? with
  | none => throw (.removalIndex position children.length)
  | some member =>
    onTree (Tree.compose label (children.eraseIdx position))
    return ⟨member⟩

/-- The constructs that are made of a guard and one block. -/
inductive Single where
  | ifThen
  | whileDo

namespace Single

def kind : Single → Kind
  | ifThen => .ifThen
  | whileDo => .whileDo

def label : Single → Condition → Label
  | ifThen => .ifThen
  | whileDo => .whileDo

/-- The guard in a label of the construct. -/
def guard? : Single → Label → Option Condition
  | ifThen, .ifThen guard | whileDo, .whileDo guard => some guard
  | _, _ => none

/-- The violation of a receiver that is another construct. -/
def receiverOther : Single → Violation
  | ifThen => .receiverNotIf
  | whileDo => .receiverNotWhile

/-- What taking the construct apart assumes of the label at its root. -/
def labelAssumed : Single → String
  | ifThen => "IF root carries an IF label"
  | whileDo => "WHILE root carries a WHILE label"

/-- What taking the construct apart assumes of its children. -/
def childAssumed (construct : Single) : String :=
  construct.kind.spelling ++ " has exactly one child"

end Single

def assembleSingle (construct : Single) (guard : Condition) (body : Statement) :
    Edit Statement Unit := do
  require (← check (body.isKind .block)) .bodyNotBlock
  set (⟨.node (construct.label guard) [body.tree]⟩ : Statement)

def disassembleSingle (construct : Single) : Edit Statement (Condition × Statement) := do
  require (← check ((← get).isKind construct.kind)) construct.receiverOther
  let (label, children) ← takeApart
  match construct.guard? label, children with
  | some guard, [body] => return (guard, ⟨body⟩)
  | some _, _ => throw (.unreachable construct.childAssumed)
  | none, _ => throw (.unreachable construct.labelAssumed)

def assembleIf : Condition → Statement → Edit Statement Unit := assembleSingle .ifThen

def disassembleIf : Edit Statement (Condition × Statement) := disassembleSingle .ifThen

def assembleIfElse (guard : Condition) (thenBody elseBody : Statement) : Edit Statement Unit := do
  require (← check (thenBody.isKind .block)) .thenNotBlock
  require (← check (elseBody.isKind .block)) .elseNotBlock
  set (⟨.node (.ifElse guard) [thenBody.tree, elseBody.tree]⟩ : Statement)

def disassembleIfElse : Edit Statement (Condition × Statement × Statement) := do
  require (← check ((← get).isKind .ifElse)) .receiverNotIfElse
  match ← takeApart with
  | (.ifElse guard, [thenBody, elseBody]) => return (guard, ⟨thenBody⟩, ⟨elseBody⟩)
  | (.ifElse _, _) => throw (.unreachable "IF_ELSE has exactly two children")
  | _ => throw (.unreachable "IF_ELSE root carries an IF_ELSE label")

def assembleWhile : Condition → Statement → Edit Statement Unit := assembleSingle .whileDo

def disassembleWhile : Edit Statement (Condition × Statement) := disassembleSingle .whileDo

def assembleCall (name : Identifier) : Edit Statement Unit :=
  set (⟨.node (.call name) []⟩ : Statement)

def disassembleCall : Edit Statement Identifier := do
  require (← check ((← get).isKind .call)) .receiverNotCall
  match ← takeApart with
  | (.call name, _) => return name
  | _ => throw (.unreachable "CALL root carries a CALL label")

def call (name : Identifier) : Statement := ⟨.node (.call name) []⟩

/-- Adds statements to a block one after the other, the first of them at `position`. -/
def addFrom (position : Nat) : List Statement → Edit Statement Unit
  | [] => pure ()
  | member :: members => do
    addToBlock position member
    addFrom (position + 1) members

/-- The block of the given statements, in order. -/
def block (members : List Statement) : Except Violation Statement :=
  build emptyBlock (addFrom 0 members)

end BLTree.Statement

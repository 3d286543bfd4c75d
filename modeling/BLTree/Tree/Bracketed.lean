import BLTree.Label
import BLTree.Tree.Basic

/-!
# Bracketed text of a tree

A node is written as its label, followed by its children in parentheses and with commas if it has
any; the empty tree is `()`.
-/

namespace BLTree.Tree

variable {L : Type}

mutual

def bracketed (label : L → List Char) : Tree L → List Char
  | empty => ['(', ')']
  | node l [] => label l
  | node l (t :: ts) => label l ++ '(' :: bracketed label t ++ bracketedTail label ts

/-- The further children, each after a comma, and the closing parenthesis. -/
def bracketedTail (label : L → List Char) : List (Tree L) → List Char
  | [] => [')']
  | t :: ts => ',' :: bracketed label t ++ bracketedTail label ts

end

/-- The text of a tree whose labels are written by `label`. -/
def toText (label : L → List Char) (t : Tree L) : String :=
  String.ofList (t.bracketed label)

end BLTree.Tree

import BLTree.Tree.Bracketed
import BLTree.Tree.Kernel

/-!
# Statements

A statement is a tree of labels. The kernel operations and the shape check hand out only statements
whose children fit their labels; the type itself does not ask for it.
-/

namespace BLTree

structure Statement where
  tree : Tree Label
  deriving DecidableEq

namespace Statement

def emptyBlock : Statement := ⟨.node .block []⟩

instance : Inhabited Statement := ⟨emptyBlock⟩

def label (s : Statement) : Except Violation Label := s.tree.root

def kind (s : Statement) : Except Violation Kind := do
  return (← s.label).kind

def kind? (s : Statement) : Option Kind := s.tree.label?.map Label.kind

/-- Whether the statement is of the given kind; a violation if it has no kind at all. -/
def isKind (s : Statement) (kind : Kind) : Except Violation Bool := do
  return decide ((← s.kind) = kind)

def toText (s : Statement) : String := s.tree.toText Label.chars

end Statement

end BLTree

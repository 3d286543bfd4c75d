import BLTree.Tree.Kernel
import BLTree.Workspace.Registers

/-!
# Scripts over trees

Trees in registers, built and taken apart by name.
-/

namespace BLTree

abbrev Forest (L : Type) := Registers (Tree L)

namespace Forest

variable {L : Type}

/-- Composes a tree from a label and the trees that it takes out of the given registers. -/
def compose (target : String) (label : L) (sources : List String) : Edit (Forest L) Unit := do
  let children ← Registers.takeAll sources
  Registers.edit target (Tree.compose label children)

/-- The name of the register for a child. -/
def childName (base : String) (position : Nat) : String := base ++ toString position

/-- Stores children in numbered registers. -/
def storeFrom (base : String) (position : Nat) : List (Tree L) → Edit (Forest L) Unit
  | [] => pure ()
  | child :: others => do
    modify fun r ↦ r.set (childName base position) child
    storeFrom base (position + 1) others

/-- Takes a tree apart and stores its children; gives the label and their number. -/
def decompose (source base : String) : Edit (Forest L) (L × Nat) := do
  let (label, children) ← Registers.edit source Tree.decompose
  storeFrom base 0 children
  return (label, children.length)

end Forest

end BLTree

import BLTree.Edit

/-!
# Registers

Named places for values of one type. A name that was never written holds the default value.
-/

namespace BLTree

structure Registers (α : Type) where
  entries : List (String × α) := []

namespace Registers

variable {α β : Type}

def get [Inhabited α] (r : Registers α) (name : String) : α := (r.entries.lookup name).getD default

/-- Overwrites the first entry of a name, or adds one. -/
def setEntry (name : String) (a : α) : List (String × α) → List (String × α)
  | [] => [(name, a)]
  | entry :: others =>
    if entry.1 = name then (name, a) :: others else entry :: setEntry name a others

def set (r : Registers α) (name : String) (a : α) : Registers α := ⟨setEntry name a r.entries⟩

/-- Edits the value in a register. -/
def edit [Inhabited α] (name : String) (e : Edit α β) : Edit (Registers α) β :=
  Edit.within (fun r ↦ r.get name) (fun a r ↦ r.set name a) e

/-- Moves the values out of registers, from left to right, and leaves the default in each. -/
def takeAll [Inhabited α] : List String → Edit (Registers α) (List α)
  | [] => return []
  | name :: names => do
    let r ← MonadState.get
    MonadState.set (r.set name default)
    return r.get name :: (← takeAll names)

end Registers

end BLTree

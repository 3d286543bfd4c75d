import BLTree.Edit
import BLTree.Tree.Basic

/-!
# Building trees and taking them apart

`compose` turns the empty tree into a node and `decompose` turns a node into the empty tree; nothing
else changes a tree. `root` and `subtree` read a part that has to be there.
-/

namespace BLTree.Tree

variable {L : Type}

def compose (label : L) (children : List (Tree L)) : Edit (Tree L) Unit := do
  Edit.require (← get).isEmpty .treeOccupied
  set (node label children)

def decompose : Edit (Tree L) (L × List (Tree L)) := do
  match ← get with
  | empty => throw .treeVacant
  | node label children =>
    set (empty : Tree L)
    return (label, children)

def root : Tree L → Except Violation L
  | empty => .error .treeVacant
  | node label _ => .ok label

def subtree (t : Tree L) (position : Nat) : Except Violation (Tree L) :=
  match t.children[position]? with
  | some child => .ok child
  | none => .error .noSuchSubtree

/-- The subtree reached from the root by a path of child positions. -/
def descend (t : Tree L) : List Nat → Except Violation (Tree L)
  | [] => .ok t
  | position :: path => do (← t.subtree position).descend path

end BLTree.Tree

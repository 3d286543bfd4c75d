/-!
# Ordered labelled trees

A tree is empty or a label with an ordered list of subtrees; an empty tree may stand among the
children of a node. Functions on trees come with a companion on lists of trees.
-/

namespace BLTree

inductive Tree (L : Type) where
  | empty
  | node (label : L) (children : List (Tree L))

namespace Tree

variable {L : Type}

instance : Inhabited (Tree L) := ⟨empty⟩

mutual

def decideEq [DecidableEq L] : (s t : Tree L) → Decidable (s = t)
  | empty, empty => isTrue rfl
  | empty, node _ _ => isFalse nofun
  | node _ _, empty => isFalse nofun
  | node a ss, node b ts =>
    match decEq a b, decideEqList ss ts with
    | isTrue ha, isTrue hs => isTrue (by rw [ha, hs])
    | isFalse ha, _ => isFalse fun h ↦ ha (Tree.node.inj h).1
    | _, isFalse hs => isFalse fun h ↦ hs (Tree.node.inj h).2

def decideEqList [DecidableEq L] : (ss ts : List (Tree L)) → Decidable (ss = ts)
  | [], [] => isTrue rfl
  | [], _ :: _ => isFalse nofun
  | _ :: _, [] => isFalse nofun
  | s :: ss, t :: ts =>
    match decideEq s t, decideEqList ss ts with
    | isTrue h, isTrue hs => isTrue (by rw [h, hs])
    | isFalse h, _ => isFalse fun e ↦ h (List.cons.inj e).1
    | _, isFalse hs => isFalse fun e ↦ hs (List.cons.inj e).2

end

instance [DecidableEq L] : DecidableEq (Tree L) := decideEq

def isEmpty : Tree L → Bool
  | empty => true
  | node _ _ => false

def label? : Tree L → Option L
  | empty => none
  | node label _ => some label

/-- The subtrees just below the root; none for the empty tree. -/
def children : Tree L → List (Tree L)
  | empty => []
  | node _ children => children

mutual

/-- The number of nodes. -/
def size : Tree L → Nat
  | empty => 0
  | node _ children => 1 + sizeList children

def sizeList : List (Tree L) → Nat
  | [] => 0
  | t :: ts => size t + sizeList ts

end

mutual

/-- The number of nodes on a longest path from the root. -/
def height : Tree L → Nat
  | empty => 0
  | node _ children => 1 + heightList children

def heightList : List (Tree L) → Nat
  | [] => 0
  | t :: ts => max (height t) (heightList ts)

end

end Tree

end BLTree

import BLTree.Proofs.Shape

/-!
# Addresses in trees

An address is a path of child positions that starts at the root; `Tree.descend` follows it, and
`Tree.replaceAt` puts another tree where it leads.
-/

namespace BLTree.Tree

variable {L : Type}

/-! ## Following an address -/

@[simp]
theorem descend_nil (t : Tree L) : t.descend [] = .ok t := rfl

/-- A subtree can be read exactly where there is a child. -/
theorem subtree_eq_ok_iff {t child : Tree L} {position : Nat} :
    t.subtree position = .ok child ↔ t.children[position]? = some child := by
  unfold subtree
  cases t.children[position]? <;> simp

/-- An address is followed from the root, so its first position picks a child. -/
theorem descend_cons_eq_ok_iff {t s : Tree L} {position : Nat} {address : List Nat} :
    t.descend (position :: address) = .ok s ↔
      ∃ child, t.children[position]? = some child ∧ child.descend address = .ok s := by
  simp only [← subtree_eq_ok_iff, descend]
  cases t.subtree position <;> simp [bind, Except.bind]

/-- The children of the node at an address are at the addresses one longer. -/
theorem descend_concat_eq_ok_iff {t s : Tree L} {above : List Nat} {position : Nat} :
    t.descend (above ++ [position]) = .ok s ↔
      ∃ parent, t.descend above = .ok parent ∧ parent.children[position]? = some s := by
  induction above generalizing t with
  | nil => simp [descend_cons_eq_ok_iff]
  | cons first above ih =>
    simp only [List.cons_append, descend_cons_eq_ok_iff, ih]
    constructor
    · rintro ⟨child, hchild, parent, hparent, hs⟩
      exact ⟨parent, ⟨child, hchild, hparent⟩, hs⟩
    · rintro ⟨parent, ⟨child, hchild, hparent⟩, hs⟩
      exact ⟨child, hchild, parent, hparent, hs⟩

/-! ## Replacing a subtree -/

/-- The tree with `new` at an address, in place of what is there. -/
def replaceAt (new : Tree L) : List Nat → Tree L → Tree L
  | [], _ => new
  | _ :: _, empty => empty
  | position :: address, node label children =>
    node label (children.modify position (replaceAt new address))

@[simp]
theorem replaceAt_nil (new t : Tree L) : replaceAt new [] t = new := by
  cases t <;> rfl

theorem label?_replaceAt_cons (new t : Tree L) (position : Nat) (address : List Nat) :
    (replaceAt new (position :: address) t).label? = t.label? := by
  cases t <;> rfl

/-- Of the children, only the one that the address leads to is changed. -/
theorem children_replaceAt_cons (new t : Tree L) (position : Nat) (address : List Nat) :
    (replaceAt new (position :: address) t).children =
      t.children.modify position (replaceAt new address) := by
  cases t with
  | empty => simp [replaceAt, children]
  | node label children => rfl

/-- Above the place of the replacement the tree has the same nodes, with the replacement in them. -/
theorem descend_replaceAt_append (new : Tree L) {t s : Tree L} {above : List Nat}
    (h : t.descend above = .ok s) (address : List Nat) :
    (replaceAt new (above ++ address) t).descend above = .ok (replaceAt new address s) := by
  induction above generalizing t with
  | nil =>
    cases h
    rfl
  | cons position above ih =>
    obtain ⟨child, hchild, hs⟩ := descend_cons_eq_ok_iff.mp h
    apply descend_cons_eq_ok_iff.mpr
    refine ⟨replaceAt new (above ++ address) child, ?_, ih hs⟩
    rw [List.cons_append, children_replaceAt_cons, List.getElem?_modify_eq, hchild]
    rfl

end BLTree.Tree

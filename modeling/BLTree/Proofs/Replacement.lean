import BLTree.Proofs.Flaws

/-!
# Replacing a part of a statement

Shape is a matter of nodes and their parents, so it is kept and lost in one place at a time. Every
part of a well-shaped tree is well shaped, and a part may be replaced by any well-shaped tree that
is a block if and only if the part was one. Otherwise the tree is refused, and the report names the
place of the replacement.
-/

namespace BLTree.Statement

open BLTree.Tree (replaceAt)

variable {t old new : Tree Label} {address above : List Nat} {position : Nat}

theorem accepted_iff_wellShaped : (∃ s, ofTree t = .ok s) ↔ WellShaped t := by
  simp only [ofTree_eq_ok_iff]
  constructor
  · intro ⟨_, h, _⟩
    exact h
  · intro h
    exact ⟨⟨t⟩, h, rfl⟩

theorem wellShaped_iff_problemAt? : WellShaped t ↔ ∀ address, problemAt? none t address = none := by
  have hforemost := foremost_firstFlaw? t
  rw [← firstFlaw?_eq_none_iff]
  cases hflaw : firstFlaw? t with
  | none =>
    rw [hflaw] at hforemost
    exact ⟨fun _ ↦ hforemost, fun _ ↦ rfl⟩
  | some flaw =>
    rw [hflaw] at hforemost
    constructor
    · intro h
      cases h
    · intro h
      have hproblem := hforemost.1
      rw [h flaw.address] at hproblem
      cases hproblem

theorem WellShaped.descend (h : WellShaped t) (hold : t.descend address = .ok old) :
    WellShaped old := by
  induction address generalizing t with
  | nil =>
    cases hold
    exact h
  | cons position address ih =>
    obtain ⟨child, hchild, hbelow⟩ := Tree.descend_cons_eq_ok_iff.mp hold
    obtain ⟨label, children, rfl⟩ := h.exists_node
    exact ih ((wellShaped_node.mp h).2 child (List.mem_of_getElem? hchild)) hbelow

/-- Under a node of a well-shaped tree there is room either for blocks only or for none. -/
theorem placeProblem?_eq_none_iff {label : Label} {siblings : List (Tree Label)}
    (h : WellShaped (.node label siblings)) (hold : old ∈ siblings) (hnew : WellShaped new) :
    placeProblem? (some label.kind) new = none ↔ (IsBlock new ↔ IsBlock old) := by
  obtain ⟨fits, -⟩ := wellShaped_node.mp h
  obtain ⟨inner, children, rfl⟩ := hnew.exists_node
  change misplaced? label.kind inner.kind = none ↔ _
  rw [misplaced?_eq_none_iff, isBlock_node]
  by_cases hguarded : IsGuarded label.kind
  · have hblock := fits.bodies hguarded old hold
    have hne : label.kind ≠ .block := by
      intro h
      simp [IsGuarded, h] at hguarded
    simp [hguarded, hblock, hne]
  · by_cases hkind : label.kind = .block
    · have hblock := fits.members hkind old hold
      simp [hkind, hblock, IsGuarded]
    · -- What is left is a call, which has no children.
      have hcall : label.kind = .call := by
        cases hlabel : label.kind <;> simp_all [IsGuarded]
      have hnone := List.length_eq_zero_iff.mp (fits.arity 0 (by rw [hcall]; rfl))
      rw [hnone] at hold
      exact absurd hold List.not_mem_nil

/-- What is wrong at the root depends on its label and on the number of its children. -/
theorem problemAt?_nil_congr {s : Tree Label} (parent : Option Kind) (hlabel : s.label? = t.label?)
    (hlength : s.children.length = t.children.length) :
    problemAt? parent s [] = problemAt? parent t [] := by
  cases s with
  | empty =>
    cases t with
    | empty => rfl
    | node label children => cases hlabel
  | node label children =>
    cases t with
    | empty => cases hlabel
    | node label' children' =>
      cases hlabel
      change (placeProblem? parent _).or (miscounted? label.kind children.length) = _
      rw [show children.length = children'.length from hlength]
      rfl

/-- Nothing can be wrong except at the place of the replacement. -/
theorem eq_of_problemAt?_replaceAt {parent : Option Kind}
    (ht : ∀ address, problemAt? parent t address = none)
    (hnew : ∀ address, problemAt? none new address = none) (hold : t.descend address = .ok old)
    {other : List Nat} (h : problemAt? parent (replaceAt new address t) other ≠ none) :
    other = address := by
  induction address generalizing t parent other with
  | nil =>
    rw [Tree.replaceAt_nil] at h
    cases other with
    | nil => rfl
    | cons first rest => exact absurd (hnew (first :: rest)) h
  | cons position address ih =>
    obtain ⟨child, hchild, hbelow⟩ := Tree.descend_cons_eq_ok_iff.mp hold
    have hlabel := Tree.label?_replaceAt_cons new t position address
    have hchildren := Tree.children_replaceAt_cons new t position address
    cases other with
    | nil =>
      have hlength : (replaceAt new (position :: address) t).children.length =
          t.children.length := by
        rw [hchildren, List.length_modify]
      rw [problemAt?_nil_congr parent hlabel hlength] at h
      exact absurd (ht []) h
    | cons first rest =>
      have hfirst := ht (first :: rest)
      rw [problemAt?] at hfirst
      rw [problemAt?, hlabel, hchildren] at h
      by_cases heq : position = first
      · subst heq
        have hproblems : ∀ address,
            problemAt? (t.label?.map Label.kind) child address = none := by
          intro address
          have hnone := ht (position :: address)
          rwa [problemAt?, hchild, Option.bind_some] at hnone
        rw [List.getElem?_modify_eq, hchild] at h
        rw [ih hproblems hbelow h]
      · rw [List.getElem?_modify_ne _ _ heq] at h
        exact absurd hfirst h

/-- At the place of the replacement only the node above it is to be asked. -/
theorem problemAt?_replaceAt_concat {label : Label} {siblings : List (Tree Label)}
    (hparent : t.descend above = .ok (.node label siblings))
    (hchild : siblings[position]? = some old) (hnew : ownProblem? new = none) :
    problemAt? none (replaceAt new (above ++ [position]) t) (above ++ [position]) =
      placeProblem? (some label.kind) new := by
  have hnode := Tree.descend_replaceAt_append new hparent [position]
  have hplace : (siblings.modify position (replaceAt new []))[position]? = some new := by
    rw [List.getElem?_modify_eq, hchild]
    exact congrArg some (Tree.replaceAt_nil new old)
  ext problem
  rw [problemAt?_concat_eq_some_iff]
  constructor
  · intro ⟨node, child, hat, hchild', hproblem⟩
    rw [hnode] at hat
    cases hat
    rw [show child = new from Option.some.inj (hchild'.symm.trans hplace), hnew,
      Option.or_none] at hproblem
    exact hproblem
  · intro hproblem
    refine ⟨_, new, hnode, hplace, ?_⟩
    rw [hnew, Option.or_none]
    exact hproblem

theorem wellShaped_replaceAt_iff (ht : WellShaped t) (hold : t.descend address = .ok old)
    (hnew : WellShaped new) :
    WellShaped (replaceAt new address t) ↔ address = [] ∨ (IsBlock new ↔ IsBlock old) := by
  rcases List.eq_nil_or_concat address with rfl | ⟨above, position, rfl⟩
  · simpa using hnew
  · rw [List.concat_eq_append] at hold ⊢
    obtain ⟨node, hparent, hchild⟩ := Tree.descend_concat_eq_ok_iff.mp hold
    have hnode := ht.descend hparent
    obtain ⟨label, siblings, rfl⟩ := hnode.exists_node
    have hproblems := wellShaped_iff_problemAt?.mp ht
    have hnewProblems := wellShaped_iff_problemAt?.mp hnew
    have hsort := placeProblem?_eq_none_iff hnode (List.mem_of_getElem? hchild) hnew
    have hplace := problemAt?_replaceAt_concat hparent hchild (hnewProblems [])
    rw [wellShaped_iff_problemAt?, ← hsort, ← hplace]
    constructor
    · intro h
      exact .inr (h _)
    · intro h other
      by_contra hother
      have heq := eq_of_problemAt?_replaceAt hproblems hnewProblems hold hother
      rw [heq] at hother
      rcases h with h | h
      · simp at h
      · exact hother h

/-- Every part of an accepted tree is accepted by itself. A part may be replaced by another accepted
tree if it is the whole, or if both are blocks or neither is; if the result is refused, then for
what is wrong at the place of the replacement. -/
theorem replacement_accepted_iff_same_sort (t : Tree Label) (ht : ∃ s, ofTree t = .ok s)
    (address : List Nat) (old : Tree Label) (hold : t.descend address = .ok old) :
    (∃ s, ofTree old = .ok s) ∧
    ∀ new, (∃ s, ofTree new = .ok s) →
      ((∃ s, ofTree (replaceAt new address t) = .ok s) ↔
        address = [] ∨ (IsBlock new ↔ IsBlock old)) ∧
      ∀ flaw, ofTree (replaceAt new address t) = .error flaw →
        flaw.address = address ∧ ∃ text, flaw.message =
          "root" ++ String.join (address.map fun position ↦ "/" ++ toString position) ++
            ": " ++ text := by
  rw [accepted_iff_wellShaped] at ht
  simp only [accepted_iff_wellShaped]
  refine ⟨ht.descend hold, fun new hnew ↦ ⟨wellShaped_replaceAt_iff ht hold hnew, ?_⟩⟩
  intro flaw hflaw
  have hforemost := foremost_firstFlaw? (replaceAt new address t)
  rw [ofTree_eq_error_iff.mp hflaw] at hforemost
  have haddress : flaw.address = address := by
    apply eq_of_problemAt?_replaceAt (wellShaped_iff_problemAt?.mp ht)
      (wellShaped_iff_problemAt?.mp hnew) hold
    rw [hforemost.1]
    exact Option.some_ne_none _
  refine ⟨haddress, flaw.problem.message, ?_⟩
  rw [Flaw.message, path_eq, haddress]

/-- A loop over one call: the call may become a conditional but no block, and its block no call. -/
theorem replacement_in_loop :
    let walk : Tree Label := .node (.call ⟨"walk", by decide⟩) []
    let loop : Tree Label := .node (.whileDo .random) [.node .block [walk]]
    let choice : Tree Label := .node (.ifThen .always) [.node .block []]
    (∃ s, ofTree loop = .ok s) ∧ loop.descend [0, 0] = .ok walk ∧ (∃ s, ofTree walk = .ok s) ∧
      (∃ s, ofTree (replaceAt choice [0, 0] loop) = .ok s) ∧
      (∃ flaw, ofTree (replaceAt (.node .block []) [0, 0] loop) = .error flaw ∧
        flaw.address = [0, 0]) ∧
      ¬ ∃ s, ofTree (replaceAt walk [0] loop) = .ok s := by
  intro walk loop choice
  have hloop : ∃ s, ofTree loop = .ok s := ⟨⟨loop⟩, rfl⟩
  obtain ⟨hwalk, hinner⟩ :=
    replacement_accepted_iff_same_sort loop hloop [0, 0] walk rfl
  obtain ⟨-, houter⟩ :=
    replacement_accepted_iff_same_sort loop hloop [0] (.node .block [walk]) rfl
  refine ⟨hloop, rfl, hwalk, ?_, ?_, ?_⟩
  · exact (hinner choice ⟨⟨choice⟩, rfl⟩).1.mpr (.inr (by decide))
  · exact ⟨_, rfl, ((hinner (.node .block []) ⟨_, rfl⟩).2 _ rfl).1⟩
  · intro h
    rcases (houter walk hwalk).1.mp h with h | h
    · cases h
    · exact absurd h (by decide)

end BLTree.Statement

import BLTree.Proofs.Json.Leaves
import BLTree.Proofs.Runs
import BLTree.Workspace.Forest

/-!
# Trees that change hands

A tree is composed of trees that are moved out of their registers, so that no tree is ever in two
places. Taking it apart hands its children back in their order, each to a register of its own, since
numbered names are different. Nothing but the registers that are named is touched.
-/

namespace BLTree

namespace Registers

variable {α : Type} [Inhabited α]

/-- The registers after their values have been moved out of some of them. -/
def cleared (r : Registers α) (names : List String) : Registers α :=
  names.foldl (fun r name ↦ r.set name default) r

theorem get_cleared (r : Registers α) (names : List String) (name : String) :
    (r.cleared names).get name = if name ∈ names then default else r.get name := by
  induction names generalizing r with
  | nil => simp [cleared]
  | cons first others ih =>
    have hothers : (r.cleared (first :: others)).get name = _ := ih (r.set first default)
    rw [hothers, get_set]
    by_cases hfirst : name = first
    · simp [hfirst]
    · simp [hfirst]

/-- Values of different registers are moved out as they were; a register named twice would give the
default value the second time. -/
theorem takeAll_apply {names : List String} (h : names.Nodup) (r : Registers α) :
    takeAll names r = .ok (names.map r.get) (r.cleared names) := by
  induction names generalizing r with
  | nil => rfl
  | cons name others ih =>
    obtain ⟨hname, hothers⟩ := List.nodup_cons.mp h
    have hlater : others.map (r.set name default).get = others.map r.get := by
      apply List.map_congr_left
      intro other hother
      rw [get_set, if_neg fun heq : other = name ↦ hname (heq ▸ hother)]
    have htake := ih hothers (r.set name default)
    rw [hlater] at htake
    change EStateM.bind (takeAll others) _ (r.set name default) = _
    rw [EStateM.bind, htake]
    rfl

end Registers

namespace Forest

variable {L : Type}

theorem childName_inj {base : String} {m n : Nat} :
    childName base m = childName base n ↔ m = n := by
  refine ⟨fun h ↦ ?_, congrArg _⟩
  exact Json.eq_of_toString_eq ((String.append_right_inj base).mp h)

/-- Each child gets a register of its own, and no other register changes. -/
theorem storeFrom_apply (base : String) (position : Nat) (children : List (Tree L)) (r : Forest L) :
    ∃ after, storeFrom base position children r = .ok () after ∧
      (∀ k child, children[k]? = some child →
        after.get (childName base (position + k)) = child) ∧
      ∀ name, (∀ k < children.length, name ≠ childName base (position + k)) →
        after.get name = r.get name := by
  induction children generalizing position r with
  | nil => exact ⟨r, rfl, nofun, fun name _ ↦ rfl⟩
  | cons first others ih =>
    obtain ⟨after, hstore, hchildren, hframe⟩ :=
      ih (position + 1) (r.set (childName base position) first)
    refine ⟨after, hstore, fun k child hk ↦ ?_, fun name hname ↦ ?_⟩
    · cases k with
      | zero =>
        -- The registers of the later children have other numbers.
        have hlater : ∀ k < others.length,
            childName base position ≠ childName base (position + 1 + k) := by
          intro k _ heq
          have hnumber := childName_inj.mp heq
          omega
        rw [Nat.add_zero, hframe _ hlater, Registers.get_set, if_pos rfl]
        exact Option.some.inj hk
      | succ k =>
        rw [Nat.add_comm k 1, ← Nat.add_assoc]
        exact hchildren k child hk
    · have hfirst : name ≠ childName base position := hname 0 (Nat.zero_lt_succ _)
      have hlater : ∀ k < others.length, name ≠ childName base (position + 1 + k) := by
        intro k hk
        rw [Nat.add_assoc, Nat.add_comm 1 k]
        exact hname (k + 1) (Nat.succ_lt_succ hk)
      rw [hframe name hlater, Registers.get_set, if_neg hfirst]

/-- Composing needs an empty register for the new tree, which may be one of those that its children
are moved out of. -/
theorem compose_apply {sources : List String} (hsources : sources.Nodup) (target : String)
    (label : L) (r : Forest L) :
    compose target label sources r =
      if target ∈ sources ∨ (r.get target).isEmpty then
        .ok () ((r.cleared sources).set target (.node label (sources.map r.get)))
      else .error .treeOccupied ((r.cleared sources).set target (r.get target)) := by
  have htake := Registers.takeAll_apply hsources r
  have hrun : compose target label sources r =
      Registers.edit target (Tree.compose label (sources.map r.get)) (r.cleared sources) := by
    change EStateM.bind _ _ r = _
    rw [EStateM.bind, htake]
  have htarget := r.get_cleared sources target
  rw [hrun, Registers.edit, Edit.within]
  by_cases hsource : target ∈ sources
  · rw [if_pos hsource] at htarget
    rw [htarget, if_pos (.inl hsource)]
    rfl
  · rw [if_neg hsource] at htarget
    rw [htarget]
    cases r.get target with
    | empty =>
      rw [if_pos (.inr rfl)]
      rfl
    | node l children =>
      rw [if_neg (by simp [hsource, Tree.isEmpty])]
      rfl

/-- Composing moves trees, it does not copy them: the new tree has the trees of its sources as its
children, the sources are empty afterwards, and all other registers are as before. -/
theorem compose_moves {sources : List String} (hsources : sources.Nodup) {target : String}
    {r : Forest L} (hvacant : target ∈ sources ∨ (r.get target).isEmpty) (label : L) :
    ∃ after, compose target label sources r = .ok () after ∧
      after.get target = .node label (sources.map r.get) ∧
      ∀ name ≠ target, after.get name = if name ∈ sources then .empty else r.get name := by
  have hrun := compose_apply hsources target label r
  rw [if_pos hvacant] at hrun
  refine ⟨_, hrun, ?_, fun name hname ↦ ?_⟩
  · rw [Registers.get_set, if_pos rfl]
  · rw [Registers.get_set, if_neg hname, Registers.get_cleared]
    rfl

/-- Taking apart what was composed gives the same label and the same children in the same order.
Besides their new registers, only those that the trees were moved out of have changed. -/
theorem decompose_compose {sources : List String} (hsources : sources.Nodup) {target : String}
    {r : Forest L} (hvacant : target ∈ sources ∨ (r.get target).isEmpty) (label : L)
    (base : String) :
    ∃ after, (compose target label sources >>= fun _ ↦ decompose target base) r =
        .ok (label, sources.length) after ∧
      (∀ k source, sources[k]? = some source → after.get (childName base k) = r.get source) ∧
      ∀ name, (∀ k < sources.length, name ≠ childName base k) →
        after.get name = if name = target ∨ name ∈ sources then .empty else r.get name := by
  obtain ⟨whole, hcompose, htarget, hothers⟩ := compose_moves hsources hvacant label
  obtain ⟨after, hstore, hchildren, hframe⟩ :=
    storeFrom_apply base 0 (sources.map r.get) (whole.set target .empty)
  have hdecompose : decompose target base whole = .ok (label, sources.length) after := by
    have hedit : Registers.edit target Tree.decompose whole =
        .ok (label, sources.map r.get) (whole.set target .empty) := by
      rw [Registers.edit, Edit.within, htarget]
      rfl
    change EStateM.bind _ _ whole = _
    rw [EStateM.bind, hedit]
    change EStateM.bind _ _ _ = _
    rw [EStateM.bind, hstore, List.length_map]
    rfl
  refine ⟨after, ?_, fun k source hk ↦ ?_, fun name hname ↦ ?_⟩
  · change EStateM.bind _ _ r = _
    rw [EStateM.bind, hcompose]
    exact hdecompose
  · have hchild := hchildren k (r.get source) (by rw [List.getElem?_map, hk, Option.map_some])
    rwa [Nat.zero_add] at hchild
  · have hkept := hframe name (by simpa using hname)
    rw [hkept, Registers.get_set]
    by_cases heq : name = target
    · simp [heq]
    · rw [if_neg heq, hothers name heq]
      simp [heq]

end Forest

end BLTree

import BLTree.Proofs.Assembly
import Mathlib.Data.List.InsertIdx

/-!
# Editing a block is editing the list of its members

A block is read as the list of its members. Adding to a block and removing from it are insertion and
deletion in that list, by position, and the two stay in step along every sequence of calls whose
arguments are valid. A removed member is no block, because a sound block has no block among its
members; this is what lets it be added again, anywhere.
-/

namespace BLTree.Statement

open Edit

/-- The statements just below the root. -/
def members (s : Statement) : List Statement := s.tree.children.map mk

/-- The block with the given members. -/
def ofMembers (l : List Statement) : Statement := ⟨.node .block (l.map tree)⟩

variable {s : Statement} {l : List Statement} {member : Statement} {position : Nat}

@[simp]
theorem members_ofMembers : (ofMembers l).members = l := by
  simp [members, ofMembers, Tree.children, Function.comp_def]

theorem isBlock_ofMembers : IsBlock (ofMembers l).tree := rfl

/-- A block is the block of its members. -/
theorem ofMembers_members (h : IsBlock s.tree) : ofMembers s.members = s := by
  obtain ⟨children, rfl⟩ := exists_children_of_isBlock h
  simp [members, ofMembers, Tree.children, Function.comp_def]

/-- What may stand in a block. -/
def CanBeMember (member : Statement) : Prop := member.Sound ∧ ¬ IsBlock member.tree

/-- The members decide whether a block is sound. -/
theorem sound_ofMembers : (ofMembers l).Sound ↔ ∀ member ∈ l, member.CanBeMember := by
  simp [Sound, ofMembers, wellShaped_block, CanBeMember]

theorem Sound.canBeMember_of_mem (hs : s.Sound) (hblock : IsBlock s.tree)
    (hmember : member ∈ s.members) : member.CanBeMember := by
  rw [← ofMembers_members hblock, sound_ofMembers] at hs
  exact hs member hmember

@[simp]
theorem lengthOfBlock_ofMembers : (ofMembers l).lengthOfBlock = .ok l.length := by
  have hkind : Label.block.kind = .block := rfl
  rw [ofMembers, lengthOfBlock_node, if_pos hkind, List.length_map]

/-- Within bounds, adding a member inserts it into the list. -/
theorem addToBlock_ofMembers (hmember : member.CanBeMember) (hposition : position ≤ l.length) :
    addToBlock position member (ofMembers l) =
      .ok () (ofMembers (l.insertIdx position member)) := by
  obtain ⟨label, children, rfl⟩ := hmember.1.exists_node
  have hkind : Label.block.kind = .block := rfl
  have hlabel : label.kind ≠ .block := fun h ↦ hmember.2 (isBlock_node.mpr h)
  rw [ofMembers, ofMembers, addToBlock_node, if_pos hkind, List.length_map, if_pos hposition,
    if_neg hlabel, List.map_insertIdx]

/-- Within bounds, removing a member erases it from the list and gives it back. -/
theorem removeFromBlock_ofMembers (hposition : position < l.length) :
    removeFromBlock position (ofMembers l) =
      .ok l[position] (ofMembers (l.eraseIdx position)) := by
  have hkind : Label.block.kind = .block := rfl
  have hposition' : position < (l.map tree).length := by rwa [List.length_map]
  rw [ofMembers, ofMembers, removeFromBlock_node, if_pos hkind, dif_pos hposition',
    List.getElem_map, List.eraseIdx_map]

/-- Building a block from a list can fail for one reason only, a block among the members. -/
theorem block_eq_ofMembers (hmembers : ∀ member ∈ l, member.Sound) :
    block l =
      if ∀ member ∈ l, ¬ IsBlock member.tree then .ok (ofMembers l)
      else .error .memberIsBlock :=
  block_eq hmembers

/-! ## In step with a list -/

/-- A call that changes a block. -/
inductive Splice where
  | add (position : Nat) (member : Statement)
  | remove (position : Nat)

/-- Whether the arguments of a call are valid for a block with the given members. -/
def Splice.Valid (l : List Statement) : Splice → Prop
  | add position member => position ≤ l.length ∧ member.Reachable ∧ ¬ IsBlock member.tree
  | remove position => position < l.length

/-- The call, with the statement that it removes, if any. -/
def Splice.onBlock : Splice → Edit Statement (Option Statement)
  | add position member => do
    addToBlock position member
    return none
  | remove position => do
    return some (← removeFromBlock position)

/-- The same insertion or deletion in a list. -/
def Splice.onList (l : List Statement) : Splice → Option Statement × List Statement
  | add position member => (none, l.insertIdx position member)
  | remove position => (l[position]?, l.eraseIdx position)

/-- The block `s` is the list `l`: same length, same elements, same order. -/
structure Mirrors (s : Statement) (l : List Statement) : Prop where
  reachable : s.Reachable
  isBlock : IsBlock s.tree
  length : s.lengthOfBlock = .ok l.length
  members : s.members = l

/-- A statement that is no block and can be added to every block, at every valid position. -/
structure Addable (member : Statement) : Prop where
  reachable : member.Reachable
  not_isBlock : ¬ IsBlock member.tree
  added : ∀ s : Statement, s.Reachable → IsBlock s.tree → ∀ position ≤ s.members.length,
    addToBlock position member s = .ok () (ofMembers (s.members.insertIdx position member))

/-- The calls made one after the other on a block and on a list, as long as they are valid: each of
them succeeds, the block mirrors the list before and after it, and the same element is removed from
both, if one is, which can then be added again. -/
def InStep (s : Statement) (l : List Statement) : List Splice → Prop
  | [] => Mirrors s l
  | call :: calls => Mirrors s l ∧ (call.Valid l →
    ∃ t, call.onBlock s = .ok (call.onList l).1 t ∧
      (∀ removed ∈ (call.onList l).1, removed.Addable) ∧ InStep t (call.onList l).2 calls)

theorem mirrors_ofMembers (h : ∀ member ∈ l, member.CanBeMember) : Mirrors (ofMembers l) l where
  reachable := Sound.reachable (sound_ofMembers.mpr h)
  isBlock := isBlock_ofMembers
  length := lengthOfBlock_ofMembers
  members := members_ofMembers

theorem Mirrors.eq_ofMembers (h : Mirrors s l) : s = ofMembers l := by
  rw [← h.members, ofMembers_members h.isBlock]

/-- All that a sound block holds can be added to a block again. -/
theorem Mirrors.canBeMember (h : Mirrors s l) : ∀ member ∈ l, member.CanBeMember := by
  intro member hmember
  rw [← h.members] at hmember
  exact h.reachable.sound.canBeMember_of_mem h.isBlock hmember

theorem CanBeMember.addable (h : member.CanBeMember) : member.Addable where
  reachable := Sound.reachable h.1
  not_isBlock := h.2
  added s _ hblock position hposition := by
    have hadd := addToBlock_ofMembers h hposition
    rwa [ofMembers_members hblock] at hadd

/-- One valid call keeps a block and a list in step. -/
theorem Mirrors.step (h : Mirrors s l) {call : Splice} (hcall : call.Valid l) :
    ∃ t, call.onBlock s = .ok (call.onList l).1 t ∧
      (∀ removed ∈ (call.onList l).1, removed.Addable) ∧ Mirrors t (call.onList l).2 := by
  have hl := h.canBeMember
  rw [h.eq_ofMembers]
  cases call with
  | add position member =>
    have hmember : member.CanBeMember := ⟨hcall.2.1.sound, hcall.2.2⟩
    have hadded : ∀ other ∈ l.insertIdx position member, other.CanBeMember := by
      intro other hother
      rcases (List.mem_insertIdx hcall.1).mp hother with rfl | hother
      · exact hmember
      · exact hl other hother
    refine ⟨_, ?_, nofun, mirrors_ofMembers hadded⟩
    simp [Splice.onBlock, Splice.onList, addToBlock_ofMembers hmember hcall.1]
  | remove position =>
    have hposition : position < l.length := hcall
    have hleft : ∀ other ∈ l.eraseIdx position, other.CanBeMember := fun other hother ↦
      hl other (List.mem_of_mem_eraseIdx hother)
    refine ⟨_, ?_, ?_, mirrors_ofMembers hleft⟩
    · simp [Splice.onBlock, Splice.onList, removeFromBlock_ofMembers hposition, hposition]
    · intro removed hremoved
      have hmem : removed ∈ l := List.mem_of_getElem? hremoved
      exact (hl removed hmem).addable

/-- From one call to any number of them. -/
theorem Mirrors.inStep (h : Mirrors s l) (calls : List Splice) : InStep s l calls := by
  induction calls generalizing s l with
  | nil => exact h
  | cons call calls ih =>
    refine ⟨h, ?_⟩
    intro hcall
    obtain ⟨t, hrun, hremoved, ht⟩ := h.step hcall
    exact ⟨t, hrun, hremoved, ih ht⟩

/-- A member that was removed can be put back where it was. -/
theorem remove_then_add (h : ∀ member ∈ l, member.CanBeMember) (hposition : position < l.length) :
    (removeFromBlock position >>= addToBlock position) (ofMembers l) = .ok () (ofMembers l) := by
  have hremoved : l[position].CanBeMember := h _ (List.getElem_mem hposition)
  have hle : position ≤ (l.eraseIdx position).length := by
    rw [List.length_eraseIdx_of_lt hposition]
    omega
  have hback : (l.eraseIdx position).insertIdx position l[position] = l :=
    List.insertIdx_eraseIdx_getElem hposition
  rw [bind_apply, removeFromBlock_ofMembers hposition]
  simp only
  rw [addToBlock_ofMembers hremoved hle, hback]

/-- A member that was added can be removed again, which restores the block. -/
theorem add_then_remove (hmember : member.CanBeMember) (hposition : position ≤ l.length) :
    (addToBlock position member >>= fun _ ↦ removeFromBlock position) (ofMembers l) =
      .ok member (ofMembers l) := by
  have hlt : position < (l.insertIdx position member).length := by
    rw [List.length_insertIdx_of_le_length hposition]
    omega
  rw [bind_apply, addToBlock_ofMembers hmember hposition]
  simp only
  rw [removeFromBlock_ofMembers hlt, List.getElem_insertIdx_self, List.eraseIdx_insertIdx_self]

/-- Removing the first member of a block until none is left, with what is removed, in order. -/
inductive Drains : Statement → List Statement → Prop
  | done {s : Statement} (hempty : s.lengthOfBlock = .ok 0) : Drains s []
  | next {s t first : Statement} {others : List Statement} {count : Nat}
      (hlength : s.lengthOfBlock = .ok (count + 1)) (hremove : removeFromBlock 0 s = .ok first t)
      (hothers : Drains t others) : Drains s (first :: others)

/-- Removing the first member until none is left gives the members in their order. -/
theorem drains_ofMembers (l : List Statement) : Drains (ofMembers l) l := by
  induction l with
  | nil => exact .done lengthOfBlock_ofMembers
  | cons first others ih =>
    have hremove : removeFromBlock 0 (ofMembers (first :: others)) =
        .ok first (ofMembers others) := removeFromBlock_ofMembers (Nat.succ_pos _)
    exact .next lengthOfBlock_ofMembers hremove ih

/-- The members come out in order, and there is no other way to drain a block. -/
theorem Drains.eq {removed : List Statement} (h : Drains (ofMembers l) removed) : removed = l := by
  generalize hs : ofMembers l = s at h
  induction h generalizing l with
  | done hempty =>
    rw [← hs, lengthOfBlock_ofMembers] at hempty
    exact (List.length_eq_zero_iff.mp (Except.ok.inj hempty)).symm
  | next hlength hremove _ ih =>
    subst hs
    cases l with
    | nil => simp at hlength
    | cons first others =>
      rw [removeFromBlock_ofMembers (Nat.succ_pos _)] at hremove
      cases hremove
      rw [ih rfl]
      rfl

/-! ## The whole refinement -/

/-- What makes a block a list of its members. -/
structure EditsAsList (s : Statement) : Prop where
  in_step : ∀ calls, InStep s s.members calls
  remove_add : ∀ position < s.members.length,
    (removeFromBlock position >>= addToBlock position) s = .ok () s
  add_remove : ∀ position ≤ s.members.length, ∀ member : Statement,
    member.Reachable → ¬ IsBlock member.tree →
      (addToBlock position member >>= fun _ ↦ removeFromBlock position) s = .ok member s
  drains : ∃ removed, Drains s removed
  rebuilt : ∀ removed, Drains s removed → block removed = .ok s

theorem editsAsList_ofMembers (h : ∀ member ∈ l, member.CanBeMember) :
    (ofMembers l).EditsAsList where
  in_step calls := by
    rw [members_ofMembers]
    exact (mirrors_ofMembers h).inStep calls
  remove_add position hposition := by
    rw [members_ofMembers] at hposition
    exact remove_then_add h hposition
  add_remove position hposition member hmember hblock := by
    rw [members_ofMembers] at hposition
    exact add_then_remove ⟨hmember.sound, hblock⟩ hposition
  drains := ⟨l, drains_ofMembers l⟩
  rebuilt removed hremoved := by
    rw [hremoved.eq, block_eq_ofMembers fun member hmember ↦ (h member hmember).1,
      if_pos fun member hmember ↦ (h member hmember).2]

/-- Every reachable block is edited as the list of its members is, and the statements of a list make
a block exactly when none of them is one; that block has the list as its members. -/
theorem block_editing_refines_list_editing :
    (∀ s : Statement, s.Reachable → IsBlock s.tree → s.EditsAsList) ∧
    ∀ l : List Statement, (∀ member ∈ l, member.Reachable) →
      ((∃ s, block l = .ok s) ↔ ∀ member ∈ l, ¬ IsBlock member.tree) ∧
      ∀ s, block l = .ok s → IsBlock s.tree ∧ s.members = l := by
  constructor
  · intro s hs hblock
    have hmembers : ∀ member ∈ s.members, member.CanBeMember := fun _ hmember ↦
      hs.sound.canBeMember_of_mem hblock hmember
    have hedits := editsAsList_ofMembers hmembers
    rwa [ofMembers_members hblock] at hedits
  · intro l hl
    rw [block_eq_ofMembers fun member hmember ↦ (hl member hmember).sound]
    split
    · rename_i hnone
      refine ⟨⟨fun _ ↦ hnone, fun _ ↦ ⟨_, rfl⟩⟩, ?_⟩
      intro s hs
      cases hs
      exact ⟨isBlock_ofMembers, members_ofMembers⟩
    · rename_i hsome
      exact ⟨⟨nofun, fun hnone ↦ absurd hnone hsome⟩, nofun⟩

/-- A block of a call and a loop. The loop holds a block, but is none. -/
theorem block_editing_of_call_and_loop :
    let l : List Statement :=
      [call ⟨"move", by decide⟩, ⟨.node (.whileDo .random) [.node .block []]⟩]
    ((ofMembers l).Reachable ∧ IsBlock (ofMembers l).tree ∧ ∀ member ∈ l, member.Reachable) ∧
    (ofMembers l).EditsAsList ∧
    ((∃ s, block l = .ok s) ↔ ∀ member ∈ l, ¬ IsBlock member.tree) ∧
    ∀ s, block l = .ok s → IsBlock s.tree ∧ s.members = l := by
  intro l
  have hcanBe : ∀ member ∈ l, member.CanBeMember := by
    intro member hmember
    simp only [l, List.mem_cons, List.not_mem_nil, or_false] at hmember
    rcases hmember with rfl | rfl
    · exact ⟨sound_call _, by decide⟩
    · exact ⟨wellShaped_whileDo.mpr ⟨_, rfl, sound_emptyBlock, by decide⟩, by decide⟩
  have hreachable : (ofMembers l).Reachable := Sound.reachable (sound_ofMembers.mpr hcanBe)
  have hmembers : ∀ member ∈ l, member.Reachable := fun member hmember ↦
    Sound.reachable (hcanBe member hmember).1
  exact ⟨⟨hreachable, isBlock_ofMembers, hmembers⟩,
    block_editing_refines_list_editing.1 _ hreachable isBlock_ofMembers,
    block_editing_refines_list_editing.2 l hmembers⟩

end BLTree.Statement

import BLTree.Proofs.ProgramRuns

/-!
# Procedures that no program takes over

A context is refused for a procedure that is named after a primitive instruction or is no block. If
there are several, the error is about the one whose name comes first in the order of bytes, because
that is the order of the entries, and about its name before its body.
-/

namespace BLTree.Program

/-- A procedure that no program takes over. -/
def Offends (entry : Identifier × Statement) : Prop :=
  entry.1.isPrimitive = true ∨ entry.2.kind? ≠ some .block

instance (entry : Identifier × Statement) : Decidable (Offends entry) :=
  inferInstanceAs (Decidable (_ ∨ _))

/-- What is wrong with an offending procedure: first of all its name, if it is primitive. -/
def complaint (entry : Identifier × Statement) : Defect :=
  if entry.1.isPrimitive then .primitiveRedefined entry.1
  else entry.2.kind?.elim .kindless (.procedureNotBlock entry.1)

/-- What is said of an offending procedure. A statement without a root has no kind to be told. -/
theorem message_complaint (entry : Identifier × Statement) :
    (complaint entry).message =
      if entry.1.isPrimitive then
        "procedure '" ++ entry.1.text ++ "' redefines a primitive instruction"
      else entry.2.kind?.elim "Violation of: this is not an empty tree" fun found ↦
        "procedure '" ++ entry.1.text ++ "' must be a BLOCK, found " ++ found.spelling := by
  rw [complaint]
  split
  · rfl
  · cases entry.2.kind? <;> rfl

/-- The offending procedure whose name has the least bytes. -/
structure FirstOffender (c : Context) (entry : Identifier × Statement) : Prop where
  mem : entry ∈ c.entries
  offends : Offends entry
  least : ∀ other ∈ c.entries, Offends other → other ≠ entry → entry.1.bytes < other.1.bytes

/-- The check is a search for the first offender among the entries. -/
theorem firstDefect?_eq_find? (entries : List (Identifier × Statement)) :
    firstDefect? entries = (entries.find? fun entry ↦ Offends entry).map complaint := by
  induction entries with
  | nil => rfl
  | cons entry others ih =>
    rw [firstDefect?, List.find?_cons, ih]
    cases hprimitive : entry.1.isPrimitive with
    | true => simp [Offends, complaint, hprimitive]
    | false =>
      cases hkind : entry.2.kind? with
      | none => simp [Offends, complaint, blockDefect?, hprimitive, hkind]
      | some kind =>
        by_cases hblock : kind = .block
        · simp [Offends, blockDefect?, hprimitive, hkind, hblock]
        · simp [Offends, complaint, blockDefect?, hprimitive, hkind, hblock]

/-- Two least offenders would be less than each other. -/
theorem FirstOffender.unique {c : Context} {entry other : Identifier × Statement}
    (h : FirstOffender c entry) (h' : FirstOffender c other) : entry = other := by
  by_contra hne
  have hlt := h.least other h'.mem h'.offends (Ne.symm hne)
  exact List.lt_asymm hlt (h'.least entry h.mem h.offends hne)

theorem firstOffender_of_find? {c : Context} {entry : Identifier × Statement}
    (h : c.entries.find? (fun entry ↦ Offends entry) = some entry) : FirstOffender c entry := by
  obtain ⟨hoffends, front, back, hentries, hfront⟩ := List.find?_eq_some_iff_append.mp h
  refine ⟨hentries ▸ by simp, of_decide_eq_true hoffends, ?_⟩
  intro other hmem hother hne
  have hback : other ∈ back := by
    rw [hentries, List.mem_append, List.mem_cons] at hmem
    rcases hmem with hmem | hmem | hmem
    · have hinnocent := hfront other hmem
      simp [hother] at hinnocent
    · exact absurd hmem hne
    · exact hmem
  have hsorted := c.sorted
  rw [hentries] at hsorted
  exact Identifier.bytes_lt
    ((List.pairwise_cons.mp (List.pairwise_append.mp hsorted).2.1).1 other hback)

theorem find?_offends_eq_some_iff {c : Context} {entry : Identifier × Statement} :
    c.entries.find? (fun entry ↦ Offends entry) = some entry ↔ FirstOffender c entry := by
  constructor
  · exact firstOffender_of_find?
  · intro h
    have hsome : (c.entries.find? fun entry ↦ Offends entry).isSome := by
      rw [List.find?_isSome]
      exact ⟨entry, h.mem, decide_eq_true h.offends⟩
    obtain ⟨found, hfound⟩ := Option.isSome_iff_exists.mp hsome
    rw [hfound, (firstOffender_of_find? hfound).unique h]

/-- Since entries are in the order of bytes, the first offender is the least. -/
theorem checkContext_eq_error_iff {c : Context} {defect : Defect} :
    checkContext c = .error defect ↔ ∃ entry, FirstOffender c entry ∧ complaint entry = defect := by
  rw [← firstDefect?_eq_some_iff, firstDefect?_eq_find?, Option.map_eq_some_iff]
  simp only [find?_offends_eq_some_iff]

/-- A context that has an offender has a least one. -/
theorem exists_firstOffender_iff {c : Context} :
    (∃ entry, FirstOffender c entry) ↔ ∃ entry ∈ c.entries, Offends entry := by
  simp only [← find?_offends_eq_some_iff]
  rw [← Option.isSome_iff_exists, List.find?_isSome]
  simp

end BLTree.Program

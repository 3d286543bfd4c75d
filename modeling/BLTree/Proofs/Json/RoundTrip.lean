import BLTree.Proofs.Json.Budgets
import BLTree.Proofs.Json.Levels
import BLTree.Proofs.Json.ProgramConformance
import BLTree.Proofs.ProgramRuns

/-!
# Reading programs back

What is written for a sound program spells it, so the checks of the decoder have nothing to say
against it and only the nesting limit can. The body of a program stands inside one bracket and its
procedures inside two; with two brackets for each level that leaves 63 levels for the body and 62
for each procedure. A program that was decoded, from any text, is within these limits.
-/

namespace BLTree

open Json Json.Reader

theorem Statement.Sound.spelled_document {s : Statement} (hs : s.Sound) :
    ∃ n ≤ 2 * s.tree.height, s.Spelled s.document n := by
  obtain ⟨n, hn, htree⟩ := s.tree.spelled_document
  exact ⟨n, hn, htree, hs⟩

/-- A statement that was read is not higher than its brackets allow. -/
theorem Statement.gives_reader_height (budget : Nat) :
    Gives (Statement.reader budget) fun s ↦ 2 * s.tree.height ≤ budget := by
  refine (Tree.gives_reader budget).bind ?_
  intro t ht
  refine gives_vetted ?_
  intro s hs
  rw [(ofTree_eq_ok_iff.mp (mapError_eq_ok_iff.mp hs)).2]
  exact ht

/-- A context is spelled by what is written for it, with a bracket more than its bodies. -/
theorem Context.Sound.spelled_document {c : Context} (hc : c.Sound) {bound : Nat}
    (h : ∀ entry ∈ c.entries, 2 * entry.2.tree.height ≤ bound) :
    ∃ n ≤ bound + 1, c.Spelled c.document n := by
  have hentries : List.Forall₂ (fun member entry ↦ ∃ n ≤ bound, SpelledEntry member entry n)
      (c.entries.map fun entry ↦ (entry.1.text, entry.2.document)) c.entries := by
    rw [List.forall₂_map_left_iff, List.forall₂_same]
    intro entry hentry
    obtain ⟨n, hn, hbody⟩ := (hc entry hentry).spelled_document
    exact ⟨n, Nat.le_trans hn (h entry hentry), rfl, hbody⟩
  obtain ⟨n, hn, hprocedures⟩ := exists_le_each_iff.mpr hentries
  have hdistinct := c.nodup_texts
  rw [names, List.map_map] at hdistinct
  refine ⟨n + 1, Nat.succ_le_succ hn, .object ?_ hprocedures (.refl _)⟩
  rw [List.map_map]
  exact hdistinct

namespace Program

/-- The program can be written with at most the given number of brackets inside each other. -/
structure FitsWithin (limit : Nat) (p : Program) : Prop where
  body : 2 * p.body.tree.height + 1 ≤ limit
  procedures : ∀ entry ∈ p.context.entries, 2 * entry.2.tree.height + 2 ≤ limit

/-- A procedure stands one bracket deeper than the body, which is one level less. -/
theorem fitsWithin_nestingLimit_iff {p : Program} :
    p.FitsWithin nestingLimit ↔
      p.body.tree.height ≤ 63 ∧ ∀ entry ∈ p.context.entries, entry.2.tree.height ≤ 62 := by
  constructor
  · intro h
    have hbody := h.body
    rw [nestingLimit] at hbody
    refine ⟨by omega, fun entry hentry ↦ ?_⟩
    have hprocedure := h.procedures entry hentry
    rw [nestingLimit] at hprocedure
    omega
  · intro h
    refine ⟨?_, fun entry hentry ↦ ?_⟩
    · have hbody := h.1
      rw [nestingLimit]
      omega
    · have hprocedure := h.2 entry hentry
      rw [nestingLimit]
      omega

/-- With brackets enough every program fits. -/
theorem exists_fitsWithin (p : Program) (limit : Nat) :
    ∃ more, limit ≤ more ∧ p.FitsWithin more := by
  let highest := Tree.heightList (p.context.entries.map fun entry ↦ entry.2.tree)
  refine ⟨limit + 2 * p.body.tree.height + 2 * highest + 2, by omega, by omega, ?_⟩
  intro entry hentry
  have hheight : entry.2.tree.height ≤ highest :=
    Tree.height_le_heightList (List.mem_map_of_mem hentry)
  omega

theorem Sound.spelled_document {p : Program} (hp : p.Sound) {limit : Nat}
    (h : p.FitsWithin limit) : ∃ n ≤ limit, p.Spelled p.document n := by
  obtain ⟨label, children, hnode⟩ := hp.body.exists_node
  have hbody := h.body
  have hheight : 1 ≤ p.body.tree.height := by
    rw [hnode, Tree.height]
    omega
  obtain ⟨bound, rfl⟩ : ∃ bound, limit = bound + 2 := Nat.exists_eq_add_of_le' (by omega)
  have hprocedures : ∀ entry ∈ p.context.entries, 2 * entry.2.tree.height ≤ bound :=
    fun entry hentry ↦ Nat.le_of_add_le_add_right (h.procedures entry hentry)
  obtain ⟨m, hm, hcontext⟩ := hp.procedures.spelled_document hprocedures
  obtain ⟨n, hn, hspelled⟩ := hp.body.spelled_document
  have hadmissible := checkContext_eq_ok_iff.mp hp.admissible
  have hfields : Fields p.document p.name.document (some p.context.document) p.body.document :=
    .named rfl rfl rfl
  refine ⟨max m n + 1, by omega, .parts hfields rfl (.given hcontext) hspelled ?_ ?_ hp.bodyBlock⟩
  · exact fun entry hentry ↦ (hadmissible entry hentry).1
  · exact fun entry hentry ↦ (hadmissible entry hentry).2

theorem gives_reader_fitsWithin (budget : Nat) :
    Gives (Program.reader budget) (FitsWithin budget) := by
  refine (gives_reader_within Statement.gives_reader_height budget).imp ?_
  intro p hp
  obtain ⟨left, parts, rfl, ⟨hcontext, hbody⟩, hparts⟩ := hp
  obtain ⟨-, -, rfl⟩ := ofParts_eq_ok_iff.mp hparts
  refine ⟨Nat.succ_le_succ hbody, fun entry hentry ↦ ?_⟩
  obtain ⟨fewer, rfl, hheight⟩ := hcontext entry hentry
  exact Nat.add_le_add_right hheight 2

/-- A program is read back within the brackets that it fits into. -/
theorem Sound.read_document {p : Program} (hp : p.Sound) {limit : Nat} (h : p.FitsWithin limit) :
    Program.reader limit p.document.compact = .ok (p, []) := by
  have hread := (decides_reader limit p.document [] follows_nil p []).mpr
    ⟨hp.spelled_document h, rfl⟩
  rwa [List.append_nil] at hread

theorem Sound.decode_document {p : Program} (hp : p.Sound) (h : p.FitsWithin nestingLimit) :
    Program.decode p.document.toText = .ok p :=
  (decode_toText_eq_ok_iff (decides_reader nestingLimit p.document) p).mpr (hp.spelled_document h)

/-- With enough brackets the program would be read back, so the limit stops the reader unless it
makes no difference. -/
theorem Sound.tooDeep_document {p : Program} (hp : p.Sound) {limit : Nat}
    (h : ¬ p.FitsWithin limit) : TooDeep (Program.reader limit p.document.compact) := by
  obtain ⟨more, hle, hfits⟩ := p.exists_fitsWithin limit
  rcases tightens_reader limit more hle p.document.compact with hdeep | heq
  · exact hdeep
  · rw [hp.read_document hfits] at heq
    exact absurd (gives_reader_fitsWithin limit _ p [] heq) h

theorem Sound.decode_document_of_not_fitsWithin {p : Program} (hp : p.Sound)
    (h : ¬ p.FitsWithin nestingLimit) :
    ∃ failure, Program.decode p.document.toText = .error failure ∧
      failure.cause = .breach .tooDeep :=
  decode_of_tooDeep (hp.tooDeep_document h)

/-- Nothing else than its depth is ever held against what is written for a program. -/
theorem Sound.cause_of_decode_document {p : Program} (hp : p.Sound) {failure : Failure}
    (h : Program.decode p.document.toText = .error failure) : failure.cause = .breach .tooDeep := by
  by_cases hfits : p.FitsWithin nestingLimit
  · rw [hp.decode_document hfits] at h
    cases h
  · obtain ⟨other, hother, hcause⟩ := hp.decode_document_of_not_fitsWithin hfits
    rw [hother] at h
    rw [← Except.error.inj h]
    exact hcause

/-- A program is written with all three parts, and its procedures in the order of the bytes of their
names. -/
def WrittenInOrder (p : Program) : Prop :=
  ∃ procedures : List (String × Document),
    p.document = .object [("name", .string p.name.text), ("context", .object procedures),
      ("body", p.body.document)] ∧
    procedures.map (·.1) = p.context.names.map Identifier.text ∧
    (procedures.map fun procedure ↦ procedure.1.toUTF8.data.toList).Pairwise (· < ·)

/-- Contexts are written in the order of their names. -/
theorem writtenInOrder (p : Program) : p.WrittenInOrder := by
  have hbytes := p.context.pairwise_bytes
  rw [Context.names, List.map_map] at hbytes
  refine ⟨_, rfl, ?_, ?_⟩
  · rw [Context.names, List.map_map, List.map_map]
    rfl
  · rw [List.map_map]
    exact hbytes

/-- What is written for a program is decoded to it if its body has at most 63 levels and every
procedure at most 62, and is refused for its depth otherwise; it is never refused for anything
else. -/
structure RestoredByHeights (p : Program) : Prop where
  written : p.WrittenInOrder
  shallow : p.body.tree.height ≤ 63 → (∀ entry ∈ p.context.entries, entry.2.tree.height ≤ 62) →
    Program.decode p.document.toText = .ok p
  deep : (64 ≤ p.body.tree.height ∨ ∃ entry ∈ p.context.entries, 63 ≤ entry.2.tree.height) →
    ∃ failure, Program.decode p.document.toText = .error failure ∧
      failure.cause = .breach .tooDeep ∧ failure.cause.message = "recursion limit exceeded"
  onlyForDepth : ∀ failure, Program.decode p.document.toText = .error failure →
    failure.cause = .breach .tooDeep

/-! ## Programs that runs lead to -/

/-- A program that some run leaves in some register. -/
def Reachable (p : Program) : Prop :=
  ∃ (w : Workspace) (steps : List Workspace.Step) (name : String),
    w.Supplied ∧ p = (w.runAll steps).programs.get name

theorem Reachable.sound {p : Program} (h : p.Reachable) : p.Sound := by
  obtain ⟨w, steps, name, hw, rfl⟩ := h
  exact (Workspace.sound_runAll hw.sound steps).programs name

/-- Every program that runs can lead to is restored from what is written for it, unless it has too
many levels. -/
theorem restored_unless_too_high (p : Program) (hp : p.Reachable) : p.RestoredByHeights where
  written := p.writtenInOrder
  shallow hbody hprocedures :=
    hp.sound.decode_document (fitsWithin_nestingLimit_iff.mpr ⟨hbody, hprocedures⟩)
  deep hhigh := by
    have hfits : ¬ p.FitsWithin nestingLimit := by
      rw [fitsWithin_nestingLimit_iff]
      rintro ⟨hbody, hprocedures⟩
      rcases hhigh with hhigh | ⟨entry, hentry, hhigh⟩
      · omega
      · have hprocedure := hprocedures entry hentry
        omega
    obtain ⟨failure, hdecode, hcause⟩ := hp.sound.decode_document_of_not_fitsWithin hfits
    refine ⟨failure, hdecode, hcause, ?_⟩
    rw [hcause]
    rfl
  onlyForDepth _ hfailure := hp.sound.cause_of_decode_document hfailure

/-- A program with 63 levels in its body and 61 in a procedure is restored, and one with 63 levels
in a procedure is refused. -/
theorem restored_with_high_body_not_with_high_procedure :
    let steps : List Workspace.Step := [.wrap "s" .random 31, .swapBody "p" "s",
      .wrap "t" .always 30, .insert "c" ⟨"low", by decide⟩ "t", .swapContext "p" "c",
      .wrap "u" .always 31, .insert "d" ⟨"high", by decide⟩ "u", .swapContext "q" "d"]
    let p := (Workspace.runAll {} steps).programs.get "p"
    let q := (Workspace.runAll {} steps).programs.get "q"
    (p.Reachable ∧ p.body.tree.height = 63 ∧
      (p.context.entries.map fun entry ↦ entry.2.tree.height) = [61] ∧
      Program.decode p.document.toText = .ok p) ∧
    q.Reachable ∧ q.body.tree.height = 1 ∧
      (q.context.entries.map fun entry ↦ entry.2.tree.height) = [63] ∧
      ∃ failure, Program.decode q.document.toText = .error failure ∧
        failure.cause.message = "recursion limit exceeded" := by
  intro steps p q
  have hsupplied : Workspace.Supplied {} := ⟨nofun, nofun, nofun⟩
  have hp : p.Reachable := ⟨{}, steps, "p", hsupplied, rfl⟩
  have hq : q.Reachable := ⟨{}, steps, "q", hsupplied, rfl⟩
  have hbody : p.body.tree.height = 63 := by decide +kernel
  have hlow : ∀ entry ∈ p.context.entries, entry.2.tree.height ≤ 62 := by decide +kernel
  have hhigh : ∃ entry ∈ q.context.entries, 63 ≤ entry.2.tree.height := by decide +kernel
  have hrestored := (restored_unless_too_high p hp).shallow (Nat.le_of_eq hbody) hlow
  obtain ⟨failure, hdecode, -, hmessage⟩ := (restored_unless_too_high q hq).deep (.inr hhigh)
  exact ⟨⟨hp, hbody, by decide +kernel, hrestored⟩, hq, by decide +kernel, by decide +kernel,
    failure, hdecode, hmessage⟩

/-! ## Programs that were decoded -/

/-- A program that is decoded from any text is decoded again from what is written for it, which is
then written again as it was. It has no more levels than can be written. -/
theorem restored_after_decoding (text : String) (p : Program) (h : Program.decode text = .ok p) :
    Program.decode p.document.toText = .ok p ∧
      (∀ q, Program.decode p.document.toText = .ok q → q.document.toText = p.document.toText) ∧
      p.body.tree.height ≤ 63 ∧ ∀ entry ∈ p.context.entries, entry.2.tree.height ≤ 62 := by
  have hfits : p.FitsWithin nestingLimit := by
    obtain ⟨rest, hread⟩ := exists_read_of_decode h
    exact gives_reader_fitsWithin nestingLimit _ p rest hread
  have hsound : p.Sound := decode_gives gives_reader h
  have hdecode := hsound.decode_document hfits
  refine ⟨hdecode, ?_, fitsWithin_nestingLimit_iff.mp hfits⟩
  intro q hq
  rw [hdecode] at hq
  rw [Except.ok.inj hq]

/-- A list with blanks and escapes, in which a procedure has an unknown member before its label. -/
theorem restored_after_decoding_list :
    let text := " [\"Pr\\u006fg\", \x7b\"walk\" : " ++
      "\x7b\"note\":[1,2e5], \"children\":[], \"label\":\"BLOCK\"\x7d\x7d,\n" ++
      " [\x7b\"BLOCK\":null\x7d, [[\x7b\"CALL\":\"walk\"\x7d, []]]]] "
    let walk : Identifier := ⟨"walk", by decide⟩
    let p : Program := ⟨⟨"Prog", by decide⟩, Context.empty.insert walk .emptyBlock,
      ⟨.node .block [.node (.call walk) []]⟩⟩
    Program.decode text = .ok p ∧ Program.decode p.document.toText = .ok p ∧
      (∀ q, Program.decode p.document.toText = .ok q → q.document.toText = p.document.toText) ∧
      p.body.tree.height ≤ 63 ∧ ∀ entry ∈ p.context.entries, entry.2.tree.height ≤ 62 := by
  intro text walk p
  have hdecode : Program.decode text = .ok p := by decide +kernel
  exact ⟨hdecode, restored_after_decoding text p hdecode⟩

end Program

end BLTree

import BLTree.Program.Summary
import BLTree.Proofs.Drawings

/-!
# Colours change no text

A terminal shows a coloured text without its escape sequences. Taking these out of a coloured text
gives the text without colours, provided that no span has an escape character of its own. The spans
of drawings and summaries have none: their words are names, conditions, numbers and fixed phrases.
-/

namespace BLTree

/-- What may stand between the opening bracket and the `m` of an escape sequence. -/
def isParameter (c : Char) : Bool := c.isDigit || c == ';'

/-- What follows the escape sequence that a text starts with, if it starts with one. -/
def afterSequence? : List Char → Option (List Char)
  | '\x1b' :: '[' :: text =>
    match text.dropWhile isParameter with
    | 'm' :: rest => some rest
    | _ => none
  | _ => none

theorem length_lt_of_afterSequence? {text rest : List Char} (h : afterSequence? text = some rest) :
    rest.length < text.length := by
  unfold afterSequence? at h
  split at h
  · rename_i text
    split at h
    · rename_i hdrop
      obtain rfl := Option.some.inj h
      have hle : (text.dropWhile isParameter).length ≤ text.length :=
        (List.dropWhile_suffix isParameter).length_le
      rw [hdrop, List.length_cons] at hle
      simp only [List.length_cons]
      omega
    · cases h
  · cases h

/-- The text without its escape sequences. -/
def stripped : List Char → List Char
  | [] => []
  | c :: others =>
    match hsequence : afterSequence? (c :: others) with
    | some rest =>
      have := length_lt_of_afterSequence? hsequence
      stripped rest
    | none => c :: stripped others
termination_by text => text.length
decreasing_by
  · assumption
  · exact Nat.lt_succ_self _

/-- An escape sequence leaves no trace. -/
theorem stripped_of_sequence {text rest : List Char} (h : afterSequence? text = some rest) :
    stripped text = stripped rest := by
  cases text with
  | nil => cases h
  | cons c others =>
    rw [stripped]
    split
    · rename_i hrest
      exact congrArg stripped (Option.some.inj (hrest.symm.trans h))
    · rename_i hnone
      cases hnone.symm.trans h

/-- All other characters stay. -/
theorem stripped_cons {c : Char} (h : c ≠ '\x1b') (rest : List Char) :
    stripped (c :: rest) = c :: stripped rest := by
  have hnone : afterSequence? (c :: rest) = none := by
    unfold afterSequence?
    split
    · rename_i heq
      exact absurd (List.cons.inj heq).1 h
    · rfl
  rw [stripped]
  split
  · rename_i hrest
    cases hnone.symm.trans hrest
  · rfl

/-- A text without escape characters stays as it is. -/
theorem stripped_append {text : List Char} (h : '\x1b' ∉ text) (rest : List Char) :
    stripped (text ++ rest) = text ++ stripped rest := by
  induction text with
  | nil => rfl
  | cons c others ih =>
    have hc : c ≠ '\x1b' := (List.ne_of_not_mem_cons h).symm
    rw [List.cons_append, stripped_cons hc, ih (List.not_mem_of_not_mem_cons h), List.cons_append]

namespace Span

theorem stripped_sequence {parameters : List Char} (h : parameters.all isParameter = true)
    (rest : List Char) : stripped (sequence parameters ++ rest) = stripped rest := by
  apply stripped_of_sequence
  have htext : sequence parameters ++ rest = '\x1b' :: '[' :: (parameters ++ 'm' :: rest) := by
    simp [sequence]
  have hdrop : (parameters ++ 'm' :: rest).dropWhile isParameter = 'm' :: rest := by
    rw [List.dropWhile_append_of_pos (List.all_eq_true.mp h),
      List.dropWhile_cons_of_neg (by decide)]
  rw [htext]
  simp only [afterSequence?, hdrop]

-- An escape character that starts no sequence stays.
example : stripped "\x1b[1;32mok\x1b[0m\x1b[3?".toList = "ok\x1b[3?".toList := by cbv

/-- The sequences around a coloured span are all that its colour adds. -/
theorem stripped_chars {span : Span} (h : '\x1b' ∉ span.text) (rest : List Char) :
    stripped (span.chars true ++ rest) = span.chars false ++ stripped rest := by
  obtain ⟨text, colour⟩ := span
  cases colour with
  | none => exact stripped_append h rest
  | some colour =>
    have hreset : ['0'].all isParameter = true := by decide
    have hbold : ['1'].all isParameter = true := by decide
    have hcolour : ['3', colour.digit].all isParameter = true := by
      cases colour <;> decide
    simp only [chars, if_true, List.append_assoc]
    rw [stripped_sequence hreset, stripped_sequence hbold, stripped_sequence hcolour,
      stripped_append h, stripped_sequence hreset]
    rfl

/-- Spans whose words have no escape character. -/
def Clean (spans : List Span) : Prop := ∀ span ∈ spans, '\x1b' ∉ span.text

/-- Painted spans differ from plain ones in escape sequences only. -/
theorem Clean.stripped_render {spans : List Span} (h : Clean spans) :
    stripped (render true spans) = render false spans := by
  induction spans with
  | nil =>
    rw [render, List.flatMap_nil, stripped]
    rfl
  | cons span others ih =>
    obtain ⟨hspan, hothers⟩ := List.forall_mem_cons.mp h
    rw [render, List.flatMap_cons, stripped_chars hspan]
    exact congrArg (span.chars false ++ ·) (ih hothers)

theorem Clean.escape_notMem_render {spans : List Span} (h : Clean spans) :
    '\x1b' ∉ render false spans := by
  rw [render, List.mem_flatMap]
  rintro ⟨span, hspan, hmem⟩
  apply h span hspan
  unfold chars at hmem
  split at hmem <;> exact hmem

end Span

namespace Statement

theorem clean_drawLabel (depth : Nat) (label : Label) : Span.Clean (drawLabel depth label) := by
  have hkind : '\x1b' ∉ label.kind.spelling.toList := label.kind.visible_spelling.notMem (by decide)
  have hpayload : '\x1b' ∉ payloadChars label := (visible_payloadChars label).notMem (by decide)
  simp [Span.Clean, drawLabel, Span.plain, Span.painted, hkind, hpayload]

/-- No character of a drawing is an escape, since names and conditions have none. -/
theorem clean_drawTree (depth : Nat) (t : Tree Label) : Span.Clean (drawTree depth t) := by
  intro span hspan
  rw [drawTree_eq, List.mem_flatMap] at hspan
  obtain ⟨line, -, hline⟩ := hspan
  exact clean_drawLabel line.1 line.2 span hline

end Statement

theorem Program.clean_summarySpans (p : Program) : Span.Clean p.summarySpans := by
  have hname (name : Identifier) : '\x1b' ∉ name.text.toList := name.visible_text.notMem (by decide)
  have hnumber (n : Nat) : '\x1b' ∉ Nat.toDigits 10 n := (visible_toDigits n).notMem (by decide)
  intro span hspan
  simp only [summarySpans, List.mem_append, List.mem_cons, List.mem_map, List.not_mem_nil,
    or_false] at hspan
  rcases hspan with ((rfl | rfl) | ⟨name, -, rfl⟩) | rfl | rfl | rfl
  all_goals simp [summaryLine, Span.plain, Span.painted, hname, hnumber]

/-- Without its escape sequences, the coloured drawing of a statement is the one without colours, in
which there is no escape character; and the same holds for the summary of a program. -/
theorem colours_change_no_text :
    (∀ s : Statement, stripped (s.draw true).toList = (s.draw false).toList ∧
      '\x1b' ∉ (s.draw false).toList) ∧
    ∀ p : Program, stripped (p.summary true).toList = (p.summary false).toList ∧
      '\x1b' ∉ (p.summary false).toList := by
  constructor
  · intro s
    have hclean := Statement.clean_drawTree 0 s.tree
    simp only [Statement.draw, Statement.drawing, String.toList_ofList]
    exact ⟨hclean.stripped_render, hclean.escape_notMem_render⟩
  · intro p
    have hclean := p.clean_summarySpans
    simp only [Program.summary, Program.summaryChars, String.toList_ofList]
    exact ⟨hclean.stripped_render, hclean.escape_notMem_render⟩

end BLTree

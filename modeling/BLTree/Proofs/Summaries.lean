import BLTree.Program.Summary
import BLTree.Proofs.Drawings
import BLTree.Proofs.Json.ProgramConformance
import BLTree.Proofs.ProgramRuns

/-!
# Summaries and drawings agree

The number of statements in a summary is counted on the trees, and a drawing goes through the trees
in its own way, but both meet in the outline of a tree: it has an entry for each node and a line for
each entry. So the number in the summary is the number of lines of all drawings together, with
colours or without. The other number is that of the names below it, which are those of the context.
-/

namespace BLTree

namespace Statement

theorem length_outlines {ts : List (Tree Label)} {depth : Nat}
    (h : ∀ t ∈ ts, (outline depth t).length = t.size) :
    (outlines depth ts).length = Tree.sizeList ts := by
  induction ts with
  | nil => rfl
  | cons t ts ih =>
    have hparts := List.forall_mem_cons.mp h
    rw [outlines, List.length_append, hparts.1, ih hparts.2, Tree.sizeList]

/-- An outline has an entry for each node. -/
theorem length_outline (t : Tree Label) (depth : Nat) : (outline depth t).length = t.size := by
  induction t generalizing depth with
  | empty => rfl
  | node label children ih =>
    have hchildren := length_outlines fun t ht ↦ ih t ht (depth + 1)
    rw [outline, List.length_cons, hchildren, Tree.size, Nat.add_comm]

/-- A drawing has a line for each node. -/
theorem length_textLines_draw (coloured : Bool) (s : Statement) :
    (textLines (s.draw coloured).toList).length = s.tree.size := by
  rw [textLines_draw, List.length_map, length_outline]

end Statement

namespace Program

/-- The lines of the drawings of all procedures, in their order, and of the body. -/
def drawnLines (coloured : Bool) (p : Program) : List (List Char) :=
  (p.context.entries.flatMap fun entry ↦ textLines (entry.2.draw coloured).toList) ++
    textLines (p.body.draw coloured).toList

/-- The drawings of all procedures and of the body have together a line for each statement. -/
theorem length_drawnLines (coloured : Bool) (p : Program) :
    (p.drawnLines coloured).length = p.statementCount := by
  have hprocedures (entries : List (Identifier × Statement)) :
      (entries.flatMap fun entry ↦ textLines (entry.2.draw coloured).toList).length =
        Tree.sizeList (entries.map fun entry ↦ entry.2.tree) := by
    induction entries with
    | nil => rfl
    | cons entry others ih =>
      rw [List.flatMap_cons, List.length_append, Statement.length_textLines_draw, ih,
        List.map_cons, Tree.sizeList]
  rw [drawnLines, List.length_append, hprocedures, Statement.length_textLines_draw,
    statementCount]

/-- The lines of a summary, of which only the last has a colour. -/
def summaryLines (coloured : Bool) (p : Program) : List (List Char) :=
  ["program ".toList ++ p.name.text.toList,
    "  procedures: ".toList ++ Nat.toDigits 10 p.context.entries.length] ++
    p.context.names.map (fun name ↦ "    ".toList ++ name.text.toList) ++
    ["  statements: ".toList ++ Nat.toDigits 10 p.statementCount,
      (Span.painted .green "ok".toList).chars coloured]

theorem newline_notMem_summaryLines {coloured : Bool} {p : Program} {line : List Char}
    (h : line ∈ p.summaryLines coloured) : '\n' ∉ line := by
  have hname (name : Identifier) : '\n' ∉ name.text.toList := name.visible_text.notMem (by decide)
  have hnumber (n : Nat) : '\n' ∉ Nat.toDigits 10 n := (visible_toDigits n).notMem (by decide)
  simp only [summaryLines, List.mem_append, List.mem_cons, List.mem_map, List.not_mem_nil,
    or_false] at h
  rcases h with ((rfl | rfl) | ⟨name, -, rfl⟩) | rfl | rfl
  · simp [hname]
  · simp [hnumber]
  · simp [hname]
  · simp [hnumber]
  · exact Span.newline_notMem_chars (by decide) coloured

/-- Names have no newline in them, so each line of the summary is a line of its text. -/
theorem textLines_summary (coloured : Bool) (p : Program) :
    textLines (p.summary coloured).toList = p.summaryLines coloured := by
  have hrender : p.summaryChars coloured =
      (p.summaryLines coloured).flatMap fun line ↦ line ++ ['\n'] := by
    simp [summaryChars, summarySpans, summaryLines, Span.render, summaryLine, Span.plain,
      Span.chars, List.flatMap_map]
  have hlines : textLines ((p.summaryLines coloured).flatMap fun line ↦ line ++ ['\n']) =
      (p.summaryLines coloured).map fun line ↦ line :=
    textLines_flatMap fun line hline ↦ newline_notMem_summaryLines hline
  rw [summary, String.toList_ofList, hrender, hlines, List.map_id']

/-- A summary tells the name of the program, the number of its procedures, their names, the number
of lines that the drawings of its body and its procedures have together, and `ok`. The names are
those of the context, each once and in the order of bytes. -/
theorem summary_agrees_with_drawings (p : Program) (coloured : Bool) :
    ∃ names : List String,
      textLines (p.summary coloured).toList =
        (["program " ++ p.name.text, "  procedures: " ++ toString names.length] ++
          names.map ("    " ++ ·) ++
            ["  statements: " ++ toString (p.drawnLines coloured).length]).map String.toList ++
            [(Span.painted .green "ok".toList).chars coloured] ∧
      (∀ name, name ∈ names ↔ (p.procedure? name).isSome = true) ∧ names.Nodup ∧
      (names.map fun name ↦ name.toUTF8.data.toList).Pairwise (· < ·) := by
  refine ⟨p.context.names.map Identifier.text, ?_, fun name ↦ ?_, p.context.nodup_texts, ?_⟩
  · rw [textLines_summary, summaryLines, length_drawnLines]
    simp [Context.names, Function.comp_def]
  · simp [procedure?, Context.get?, Context.names]
  · rw [List.map_map]
    exact p.context.pairwise_bytes

end Program

end BLTree

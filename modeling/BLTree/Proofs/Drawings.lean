import BLTree.Proofs.Json.Trees
import BLTree.Statement.Drawing

/-!
# Reading a drawing back

A drawing without colours is the list of its lines, and a line is a level, a kind and a payload, in
pre-order. No mark says where the children of a node end; they are the later lines of a deeper
level, up to the first that is not deeper. Reading from the last line to the first therefore needs
no more than the trees that are still without a parent. This works for statements because none of
their nodes is the empty tree, which would have no line, and because no payload has a blank or a
newline in it.
-/

namespace BLTree

namespace Statement

mutual

/-- The labels of a tree in pre-order, each with its level, where the root has the given one. -/
def outline (depth : Nat) : Tree Label → List (Nat × Label)
  | .empty => []
  | .node label children => (depth, label) :: outlines (depth + 1) children

def outlines (depth : Nat) : List (Tree Label) → List (Nat × Label)
  | [] => []
  | t :: ts => outline depth t ++ outlines depth ts

end

def lineChars (line : Nat × Label) : List Char :=
  List.replicate (2 * line.1) ' ' ++ line.2.kind.spelling.toList ++ payloadChars line.2

/-- The children are drawn one after the other. -/
theorem drawTrees_eq {ts : List (Tree Label)} {depth : Nat}
    (h : ∀ t ∈ ts, drawTree depth t =
      (outline depth t).flatMap fun line ↦ drawLabel line.1 line.2) :
    drawTrees depth ts = (outlines depth ts).flatMap fun line ↦ drawLabel line.1 line.2 := by
  induction ts with
  | nil => rfl
  | cons t ts ih =>
    have hparts := List.forall_mem_cons.mp h
    rw [drawTrees, outlines, List.flatMap_append, hparts.1, ih hparts.2]

/-- A drawing is made of the lines of its labels. -/
theorem drawTree_eq (t : Tree Label) (depth : Nat) :
    drawTree depth t = (outline depth t).flatMap fun line ↦ drawLabel line.1 line.2 := by
  induction t generalizing depth with
  | empty => rfl
  | node label children ih =>
    rw [drawTree, outline, List.flatMap_cons, drawTrees_eq fun t ht ↦ ih t ht (depth + 1)]

end Statement

/-- The lines of a text, without the newlines that end them. -/
def textLines : List Char → List (List Char)
  | [] => []
  | c :: others =>
    if c = '\n' then [] :: textLines others
    else
      match textLines others with
      | [] => [[c]]
      | line :: lines => (c :: line) :: lines

/-- A line ends at the first newline. -/
theorem textLines_line {line : List Char} (hline : '\n' ∉ line) (rest : List Char) :
    textLines (line ++ '\n' :: rest) = line :: textLines rest := by
  induction line with
  | nil => simp [textLines]
  | cons c others ih =>
    have hc : c ≠ '\n' := (List.ne_of_not_mem_cons hline).symm
    have hothers := ih (List.not_mem_of_not_mem_cons hline)
    rw [List.cons_append, textLines, if_neg hc, hothers]

/-- Lines without a newline in them can be recovered from the text. -/
theorem textLines_flatMap {α : Type} {chars : α → List Char} {lines : List α}
    (h : ∀ line ∈ lines, '\n' ∉ chars line) :
    textLines (lines.flatMap fun line ↦ chars line ++ ['\n']) = lines.map chars := by
  induction lines with
  | nil => rfl
  | cons line lines ih =>
    have hparts := List.forall_mem_cons.mp h
    rw [List.flatMap_cons, List.append_assoc, List.singleton_append, textLines_line hparts.1,
      ih hparts.2, List.map_cons]

/-- No character of the text is a newline, an escape or another control character. -/
def Visible (text : List Char) : Prop := ∀ c ∈ text, Json.Reader.isControl c = false

instance (text : List Char) : Decidable (Visible text) :=
  List.decidableBAll (fun c ↦ Json.Reader.isControl c = false) text

theorem Visible.append {text other : List Char} (h : Visible text) (h' : Visible other) :
    Visible (text ++ other) :=
  List.forall_mem_append.mpr ⟨h, h'⟩

/-- A visible text has no control character in it. -/
theorem Visible.notMem {text : List Char} (h : Visible text) {c : Char}
    (hc : Json.Reader.isControl c = true) : c ∉ text := by
  intro hmem
  rw [h c hmem] at hc
  cases hc

theorem visible_of_isWordChar {text : List Char}
    (h : ∀ c ∈ text, Vocabulary.isWordChar c = true) : Visible text := by
  have hnone : ∀ n < 0x20, Vocabulary.isWordChar (Char.ofNat n) = false := by decide
  intro c hc
  have hword := h c hc
  rw [Json.Reader.isControl, decide_eq_false_iff_not]
  intro hlow
  have hfalse := hnone c.toNat hlow
  rw [Char.ofNat_toNat, hword] at hfalse
  cases hfalse

theorem visible_toDigits (n : Nat) : Visible (Nat.toDigits 10 n) := by
  apply visible_of_isWordChar
  intro c hc
  have hdigit := Nat.isDigit_of_mem_toDigits (by decide) (by decide) hc
  simp [Vocabulary.isWordChar, Char.isAlphanum, hdigit]

theorem Identifier.visible_text (name : Identifier) : Visible name.text.toList :=
  visible_of_isWordChar fun _ hc ↦ name.isWordChar_of_mem hc

theorem Kind.visible_spelling (k : Kind) : Visible k.spelling.toList := by
  cases k <;> decide

theorem Statement.visible_payloadChars (label : Label) : Visible (payloadChars label) := by
  have hnone : Visible [] := by decide
  have hblank : Visible [' '] := by decide
  have hguard (guard : Condition) : Visible (' ' :: guard.spelling.toList) := by
    cases guard <;> decide
  cases label with
  | block => exact hnone
  | ifThen guard | ifElse guard | whileDo guard => exact (hguard guard).append hnone
  | call name => exact hblank.append name.visible_text

/-- A colour leaves a text on its line. -/
theorem Span.newline_notMem_chars {span : Span} (h : '\n' ∉ span.text) (coloured : Bool) :
    '\n' ∉ span.chars coloured := by
  obtain ⟨text, colour⟩ := span
  cases colour with
  | none => exact h
  | some colour =>
    have hreset : '\n' ∉ sequence ['0'] := by decide
    have hbold : '\n' ∉ sequence ['1'] := by decide
    have hcolour : '\n' ∉ sequence ['3', colour.digit] := by cases colour <;> decide
    cases coloured with
    | false => exact h
    | true => simp [chars, h, hreset, hbold, hcolour]

namespace Statement

/-- The line of a label, with its kind in colour or not. -/
def paintedLine (coloured : Bool) (line : Nat × Label) : List Char :=
  List.replicate (2 * line.1) ' ' ++
    (Span.painted line.2.kind.colour line.2.kind.spelling.toList).chars coloured ++
      payloadChars line.2

/-- What is drawn for a label is one line, in colours or not. -/
theorem render_drawLabel (coloured : Bool) (line : Nat × Label) :
    Span.render coloured (drawLabel line.1 line.2) = paintedLine coloured line ++ ['\n'] := by
  simp [Span.render, drawLabel, paintedLine, Span.plain, Span.chars]

theorem newline_notMem_paintedLine (coloured : Bool) (line : Nat × Label) :
    '\n' ∉ paintedLine coloured line := by
  have hkind : '\n' ∉ line.2.kind.spelling.toList :=
    line.2.kind.visible_spelling.notMem (by decide)
  have hpayload : '\n' ∉ payloadChars line.2 := (visible_payloadChars line.2).notMem (by decide)
  have hpainted : '\n' ∉
      (Span.painted line.2.kind.colour line.2.kind.spelling.toList).chars coloured :=
    Span.newline_notMem_chars hkind coloured
  simp [paintedLine, hpainted, hpayload]

/-- The lines of a drawing are those of the outline, in pre-order. -/
theorem textLines_draw (coloured : Bool) (s : Statement) :
    textLines (s.draw coloured).toList = (outline 0 s.tree).map (paintedLine coloured) := by
  have hrender : s.drawing coloured =
      (outline 0 s.tree).flatMap fun line ↦ paintedLine coloured line ++ ['\n'] := by
    rw [drawing, drawTree_eq, Span.render, List.flatMap_assoc]
    exact List.flatMap_congr fun line _ ↦ render_drawLabel coloured line
  rw [draw, String.toList_ofList, hrender]
  exact textLines_flatMap fun line _ ↦ newline_notMem_paintedLine coloured line

end Statement

/-! ## Reading a line -/

def Kind.parse? (word : String) : Option Kind := all.find? fun k ↦ k.spelling == word

theorem Kind.parse?_spelling (k : Kind) : parse? k.spelling = some k := by
  cases k <;> decide

namespace Statement

/-- The label with the given kind and the given text of its payload, which a block has not. -/
def labelOf? (payload : String) : Kind → Option Label
  | .block => if payload = "" then some .block else none
  | .ifThen => (Condition.parse? payload).map .ifThen
  | .ifElse => (Condition.parse? payload).map .ifElse
  | .whileDo => (Condition.parse? payload).map .whileDo
  | .call => (Identifier.parse payload).toOption.map .call

/-- The level of a line is half the number of blanks before the first word, the kind; the second
word is the payload. -/
def parseLine (line : List Char) : Option (Nat × Label) := do
  let words := line.dropWhile (· == ' ')
  let payload := (words.dropWhile (· != ' ')).tail
  let kind ← Kind.parse? (String.ofList (words.takeWhile (· != ' ')))
  let label ← labelOf? (String.ofList payload) kind
  return ((line.takeWhile (· == ' ')).length / 2, label)

/-- The text of the payload of a label. -/
def payloadText (label : Label) : String :=
  label.condition?.elim "" Condition.spelling ++ label.identifier?.elim "" Identifier.text

/-- The word for the kind and the payload together tell the label. -/
theorem labelOf?_payloadText (label : Label) :
    labelOf? (payloadText label) label.kind = some label := by
  cases label with
  | block => rfl
  | ifThen guard | ifElse guard | whileDo guard =>
    simp [payloadText, Label.condition?, Label.identifier?, Label.kind, labelOf?,
      Condition.parse?_spelling]
  | call name =>
    simp [payloadText, Label.condition?, Label.identifier?, Label.kind, labelOf?,
      name.parse_text, Except.toOption]

/-- What stands on the line of a label behind the blanks. -/
def words (label : Label) : List Char := label.kind.spelling.toList ++ payloadChars label

theorem takeWhile_words (label : Label) :
    (words label).takeWhile (· != ' ') = label.kind.spelling.toList := by
  cases label <;>
    simp [words, payloadChars, Label.kind, Label.condition?, Label.identifier?, Kind.spelling]

theorem tail_words (label : Label) :
    ((words label).dropWhile (· != ' ')).tail = (payloadText label).toList := by
  cases label <;>
    simp [words, payloadChars, payloadText, Label.kind, Label.condition?, Label.identifier?,
      Kind.spelling]

/-- The words of a line do not begin with a blank, so the indentation ends where they begin. -/
theorem span_words (label : Label) :
    (words label).takeWhile (· == ' ') = [] ∧ (words label).dropWhile (· == ' ') = words label := by
  cases label <;> simp [words, Label.kind, Kind.spelling]

/-- Reading a line undoes writing it. -/
theorem parseLine_lineChars (line : Nat × Label) : parseLine (lineChars line) = some line := by
  have hline : lineChars line = List.replicate (2 * line.1) ' ' ++ words line.2 :=
    List.append_assoc ..
  have hblank : ∀ c ∈ List.replicate (2 * line.1) ' ', (c == ' ') = true := by
    intro c hc
    rw [List.eq_of_mem_replicate hc]
    rfl
  have htake : (lineChars line).takeWhile (· == ' ') = List.replicate (2 * line.1) ' ' := by
    rw [hline, List.takeWhile_append_of_pos hblank, (span_words line.2).1, List.append_nil]
  have hdrop : (lineChars line).dropWhile (· == ' ') = words line.2 := by
    rw [hline, List.dropWhile_append_of_pos hblank, (span_words line.2).2]
  simp [parseLine, htake, hdrop, takeWhile_words, tail_words, Kind.parse?_spelling,
    labelOf?_payloadText]

theorem mapM_parseLine (lines : List (Nat × Label)) :
    (lines.map lineChars).mapM parseLine = some lines := by
  induction lines with
  | nil => rfl
  | cons line lines ih => simp [parseLine_lineChars, ih]

end Statement

/-! ## Finding the children -/

/-- The trees of a list of lines, each with its level. Of the trees that follow a line, the first
ones at a deeper level are its children. -/
def gather {L : Type} : List (Nat × L) → List (Nat × Tree L)
  | [] => []
  | (depth, label) :: lines =>
    let later := gather lines
    (depth, .node label ((later.takeWhile (depth < ·.1)).map Prod.snd)) ::
      later.dropWhile (depth < ·.1)

/-- Lines that follow the lines of a tree at the given level. -/
def EndsAt {L : Type} (depth : Nat) (lines : List (Nat × L)) : Prop :=
  ∀ line ∈ lines.head?, line.1 ≤ depth

/-- The trees of such lines have no part in the tree before them. -/
theorem EndsAt.span_gather {L : Type} {depth : Nat} {lines : List (Nat × L)}
    (h : EndsAt depth lines) :
    (gather lines).takeWhile (depth < ·.1) = [] ∧
      (gather lines).dropWhile (depth < ·.1) = gather lines := by
  cases lines with
  | nil => exact ⟨rfl, rfl⟩
  | cons line lines =>
    have hline : ¬ depth < line.1 := Nat.not_lt.mpr (h line rfl)
    simp [gather, hline]

namespace Statement

/-- Further trees at the same level have no part in the tree before them either. -/
theorem endsAt_outlines {depth : Nat} {lines : List (Nat × Label)} (h : EndsAt depth lines)
    (ts : List (Tree Label)) : EndsAt depth (outlines depth ts ++ lines) := by
  induction ts with
  | nil => exact h
  | cons t ts ih =>
    cases t with
    | empty => exact ih
    | node label children =>
      intro line hline
      cases hline
      exact Nat.le_refl depth

/-- A tree that is found again from its lines, whatever lines follow it at its level or above. -/
def Gathered (t : Tree Label) : Prop :=
  ∀ {depth : Nat} {rest : List (Nat × Label)}, EndsAt depth rest →
    gather (outline depth t ++ rest) = (depth, t) :: gather rest

/-- Gathering gives every tree of the outline its children back, by induction over the trees. -/
theorem gather_outlines {ts : List (Tree Label)} (hts : ∀ t ∈ ts, Gathered t) {depth : Nat}
    {rest : List (Nat × Label)} (hrest : EndsAt depth rest) :
    gather (outlines depth ts ++ rest) = ts.map (depth, ·) ++ gather rest := by
  induction ts with
  | nil => rfl
  | cons t ts ih =>
    have hparts := List.forall_mem_cons.mp hts
    rw [outlines, List.append_assoc, hparts.1 (endsAt_outlines hrest ts), ih hparts.2]
    rfl

/-- A well-shaped tree has no empty subtree, which would leave no line. -/
theorem gathered_of_wellShaped {t : Tree Label} (h : WellShaped t) : Gathered t := by
  induction t with
  | empty => exact absurd h not_wellShaped_empty
  | node label children ih =>
    intro depth rest hrest
    have hshape := wellShaped_node.mp h
    have hchildren : ∀ child ∈ children, Gathered child := fun child hchild ↦
      ih child hchild (hshape.2 child hchild)
    have hbelow : EndsAt (depth + 1) rest := fun line hline ↦
      Nat.le_succ_of_le (hrest line hline)
    have hdeeper : ∀ tree ∈ children.map ((depth + 1, ·) : Tree Label → Nat × Tree Label),
        decide (depth < tree.1) = true := by
      intro tree htree
      obtain ⟨child, -, rfl⟩ := List.mem_map.mp htree
      exact decide_eq_true (Nat.lt_succ_self depth)
    have hlater := gather_outlines hchildren hbelow
    rw [outline, List.cons_append, gather]
    simp only [hlater]
    rw [List.takeWhile_append_of_pos hdeeper, List.dropWhile_append_of_pos hdeeper,
      hrest.span_gather.1, hrest.span_gather.2, List.append_nil, List.map_map]
    simp [Function.comp_def]

/-- The statement of a drawing, if it has just one tree. -/
def ofDrawing (text : String) : Option Statement := do
  match gather (← (textLines text.toList).mapM parseLine) with
  | [(_, t)] => some ⟨t⟩
  | _ => none

theorem ofDrawing_draw {s : Statement} (hs : s.Sound) : ofDrawing (s.draw false) = some s := by
  have hlines : textLines (s.draw false).toList = (outline 0 s.tree).map lineChars :=
    textLines_draw false s
  have hgathered : gather (outline 0 s.tree) = [(0, s.tree)] := by
    have hends : EndsAt 0 ([] : List (Nat × Label)) := nofun
    have h := gathered_of_wellShaped hs hends
    rwa [List.append_nil] at h
  rw [ofDrawing, hlines, mapM_parseLine]
  simp [hgathered]

/-- A drawing without colours can be read back into the statement, so that no two statements have
the same one. -/
theorem drawing_determines_statement :
    (∀ s : Statement, s.Reachable → ofDrawing (s.draw false) = some s) ∧
    ∀ s t : Statement, s.Reachable → t.Reachable → s.draw false = t.draw false → s = t := by
  constructor
  · intro s hs
    exact ofDrawing_draw hs.sound
  · intro s t hs ht h
    have hread : some s = some t :=
      calc
        some s = ofDrawing (s.draw false) := (ofDrawing_draw hs.sound).symm
        _ = ofDrawing (t.draw false) := by rw [h]
        _ = some t := ofDrawing_draw ht.sound
    exact Option.some.inj hread

/-- Two statements with the same labels in the same order; only the levels tell whether the call
stands in the loop or behind it. -/
theorem drawing_determines_place_of_call :
    let call : Tree Label := .node (.call ⟨"move", by decide⟩) []
    let inside : Statement := ⟨.node .block [.node (.whileDo .always) [.node .block [call]]]⟩
    let behind : Statement := ⟨.node .block [.node (.whileDo .always) [.node .block []], call]⟩
    (inside.Reachable ∧ behind.Reachable) ∧
    ofDrawing (inside.draw false) = some inside ∧ ofDrawing (behind.draw false) = some behind ∧
    (inside.draw false = behind.draw false → inside = behind) := by
  intro call inside behind
  have hinside : inside.Reachable := Sound.reachable (firstFlaw?_eq_none_iff.mp (by decide))
  have hbehind : behind.Reachable := Sound.reachable (firstFlaw?_eq_none_iff.mp (by decide))
  exact ⟨⟨hinside, hbehind⟩, drawing_determines_statement.1 inside hinside,
    drawing_determines_statement.1 behind hbehind,
    drawing_determines_statement.2 inside behind hinside hbehind⟩

-- The empty tree, which no statement has in it, would leave no line.
example : draw false ⟨.node .block [.empty]⟩ = draw false ⟨.node .block []⟩ := rfl

end Statement

end BLTree

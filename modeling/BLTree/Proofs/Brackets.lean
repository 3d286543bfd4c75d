import BLTree.Proofs.Json.TreeConformance
import BLTree.Statement.Basic

/-!
# The bracketed text of a tree can be read in one way only

Labels, lists of children and the empty tree all use parentheses and commas, so a text is compared
together with whatever follows it. A way to write labels is legible when a label ends where the next
parenthesis or comma says so and is never mistaken for the empty tree; then a tree ends where the
next comma or closing parenthesis says so, by induction over the tree. Statement labels and 64-bit
integers are written legibly.
-/

namespace BLTree

/-- Two texts are told apart at the first mark that stands in neither of them. -/
theorem append_mark_inj {mark : Char} {front front' rest rest' : List Char}
    (hfront : mark ∉ front) (hfront' : mark ∉ front')
    (h : front ++ mark :: rest = front' ++ mark :: rest') : front = front' ∧ rest = rest' := by
  induction front generalizing front' with
  | nil =>
    cases front' with
    | nil => exact ⟨rfl, (List.cons.inj h).2⟩
    | cons c others => exact absurd (List.cons.inj h).1 (List.ne_of_not_mem_cons hfront')
  | cons c others ih =>
    cases front' with
    | nil => exact absurd (List.cons.inj h).1.symm (List.ne_of_not_mem_cons hfront)
    | cons c' others' =>
      obtain ⟨rfl, hothers⟩ := List.cons.inj h
      obtain ⟨rfl, hrest⟩ := ih (List.not_mem_of_not_mem_cons hfront)
        (List.not_mem_of_not_mem_cons hfront') hothers
      exact ⟨rfl, hrest⟩

namespace Tree

variable {L : Type} {label : L → List Char}

/-- What can follow a tree in a text: nothing, a further child, or the end of its siblings. -/
def EndsTree (rest : List Char) : Prop := ∀ c ∈ rest.head?, c = ',' ∨ c = ')'

/-- What can follow a label in a text: its children, or what follows its tree. -/
def EndsLabel (rest : List Char) : Prop := ∀ c ∈ rest.head?, c = '(' ∨ c = ',' ∨ c = ')'

theorem endsTree_nil : EndsTree [] := nofun

/-- What may follow a tree may also follow a label. -/
theorem EndsTree.endsLabel {rest : List Char} (h : EndsTree rest) : EndsLabel rest :=
  fun c hc ↦ .inr (h c hc)

theorem EndsTree.ne_children {rest others : List Char} (h : EndsTree rest) :
    rest ≠ '(' :: others := by
  intro heq
  subst heq
  simp [EndsTree] at h

/-- A way to write labels from which a label can be told wherever it stands in a text. -/
structure Legible (label : L → List Char) : Prop where
  unique : ∀ {a b : L} {rest rest' : List Char}, EndsLabel rest → EndsLabel rest' →
    label a ++ rest = label b ++ rest' → a = b ∧ rest = rest'
  ne_empty : ∀ (a : L) (rest others : List Char), label a ++ rest ≠ '(' :: ')' :: others

/-- The children of a node, in parentheses if there are any. -/
def bracketedChildren (label : L → List Char) : List (Tree L) → List Char
  | [] => []
  | t :: ts => '(' :: bracketed label t ++ bracketedTail label ts

theorem bracketed_node (l : L) (children : List (Tree L)) :
    bracketed label (node l children) = label l ++ bracketedChildren label children := by
  cases children with
  | nil => rw [bracketed, bracketedChildren, List.append_nil]
  | cons t ts => simp [bracketed, bracketedChildren]

/-- Behind a child stands a comma or the closing bracket. -/
theorem endsTree_bracketedTail (ts : List (Tree L)) (rest : List Char) :
    EndsTree (bracketedTail label ts ++ rest) := by
  cases ts <;> simp [EndsTree, bracketedTail]

/-- Behind a label stands the opening bracket of the children, or what may follow the tree. -/
theorem endsLabel_bracketedChildren (ts : List (Tree L)) {rest : List Char} (h : EndsTree rest) :
    EndsLabel (bracketedChildren label ts ++ rest) := by
  cases ts with
  | nil => exact h.endsLabel
  | cons t ts => simp [EndsLabel, bracketedChildren]

/-- A tree that can be told from any other by its text, whatever follows the two. -/
def Unmistakable (label : L → List Char) (t : Tree L) : Prop :=
  ∀ {u : Tree L} {rest rest' : List Char}, EndsTree rest → EndsTree rest' →
    t.bracketed label ++ rest = u.bracketed label ++ rest' → t = u ∧ rest = rest'

/-- The texts of further children can be told apart, with whatever stands behind them. -/
theorem bracketedTail_append_inj {ts us : List (Tree L)} (hts : ∀ t ∈ ts, t.Unmistakable label)
    {rest rest' : List Char}
    (h : bracketedTail label ts ++ rest = bracketedTail label us ++ rest') :
    ts = us ∧ rest = rest' := by
  induction ts generalizing us with
  | nil =>
    cases us with
    | nil => simpa [bracketedTail] using h
    | cons u us => simp [bracketedTail] at h
  | cons t ts ih =>
    cases us with
    | nil => simp [bracketedTail] at h
    | cons u us =>
      have hfirst := List.forall_mem_cons.mp hts
      simp only [bracketedTail, List.cons_append, List.append_assoc, List.cons.injEq,
        true_and] at h
      obtain ⟨rfl, hothers⟩ := hfirst.1 (endsTree_bracketedTail ts rest)
        (endsTree_bracketedTail us rest') h
      obtain ⟨rfl, hrest⟩ := ih hfirst.2 hothers
      exact ⟨rfl, hrest⟩

/-- If no child can be mistaken, the texts of all children together cannot be either. -/
theorem bracketedChildren_append_inj {ts us : List (Tree L)}
    (hts : ∀ t ∈ ts, t.Unmistakable label) {rest rest' : List Char} (hrest : EndsTree rest)
    (hrest' : EndsTree rest')
    (h : bracketedChildren label ts ++ rest = bracketedChildren label us ++ rest') :
    ts = us ∧ rest = rest' := by
  cases ts with
  | nil =>
    cases us with
    | nil => exact ⟨rfl, h⟩
    | cons u us => exact absurd h hrest.ne_children
  | cons t ts =>
    cases us with
    | nil => exact absurd h.symm hrest'.ne_children
    | cons u us =>
      have hfirst := List.forall_mem_cons.mp hts
      simp only [bracketedChildren, List.cons_append, List.append_assoc, List.cons.injEq,
        true_and] at h
      obtain ⟨rfl, hothers⟩ := hfirst.1 (endsTree_bracketedTail ts rest)
        (endsTree_bracketedTail us rest') h
      obtain ⟨rfl, hrest⟩ := bracketedTail_append_inj hfirst.2 hothers
      exact ⟨rfl, hrest⟩

/-- Where labels can be told apart, so can trees, by induction over the tree. -/
theorem Legible.unmistakable (hlabel : Legible label) (t : Tree L) : t.Unmistakable label := by
  induction t with
  | empty =>
    intro u rest rest' _ _ h
    cases u with
    | empty => exact ⟨rfl, List.append_cancel_left h⟩
    | node b us =>
      rw [bracketed_node, List.append_assoc] at h
      exact absurd h.symm (hlabel.ne_empty b _ _)
  | node a ts ih =>
    intro u rest rest' hrest hrest' h
    rw [bracketed_node, List.append_assoc] at h
    cases u with
    | empty => exact absurd h (hlabel.ne_empty a _ _)
    | node b us =>
      rw [bracketed_node, List.append_assoc] at h
      obtain ⟨rfl, hchildren⟩ := hlabel.unique (endsLabel_bracketedChildren ts hrest)
        (endsLabel_bracketedChildren us hrest') h
      obtain ⟨rfl, heq⟩ := bracketedChildren_append_inj ih hrest hrest' hchildren
      exact ⟨rfl, heq⟩

theorem Legible.toText_injective (hlabel : Legible label) :
    Function.Injective (toText label) := by
  intro t u h
  have hchars : t.bracketed label ++ [] = u.bracketed label ++ [] := by
    rw [List.append_nil, List.append_nil]
    exact String.ofList_injective h
  exact (hlabel.unmistakable t endsTree_nil endsTree_nil hchars).1

end Tree

namespace Label

/-- A label is told from its kind and the texts of its payloads, where `?` is the text of none. -/
theorem eq_of_texts {a b : Label} (hkind : a.kind = b.kind)
    (hcondition : a.condition?.elim "?" Condition.spelling =
      b.condition?.elim "?" Condition.spelling)
    (hname : a.identifier?.elim "?" Identifier.text = b.identifier?.elim "?" Identifier.text) :
    a = b := by
  cases a with
  | block => cases b <;> simp_all [kind]
  | ifThen guard | ifElse guard | whileDo guard =>
    cases b <;> simp_all [kind, condition?]
    exact Condition.spelling_injective hcondition
  | call name => cases b <;> simp_all [kind, identifier?, Identifier.ext_iff]

theorem comma_notMem_condition (label : Label) :
    ',' ∉ (label.condition?.elim "?" Condition.spelling).toList := by
  cases label.condition? with
  | none => decide
  | some guard => cases guard <;> decide

theorem parenthesis_notMem_identifier (label : Label) :
    ')' ∉ (label.identifier?.elim "?" Identifier.text).toList := by
  cases label.identifier? with
  | none => decide
  | some name =>
    intro h
    have hword := name.isWordChar_of_mem h
    revert hword
    decide

theorem legible_chars : Tree.Legible chars where
  unique {a b rest rest'} _ _ h := by
    have hcomma (k : Kind) : ',' ∉ k.spelling.toList := by cases k <;> decide
    simp only [chars, List.cons_append, List.append_assoc, List.nil_append, List.cons.injEq,
      true_and] at h
    obtain ⟨hkind, h⟩ := append_mark_inj (hcomma a.kind) (hcomma b.kind) h
    obtain ⟨hcondition, h⟩ :=
      append_mark_inj (comma_notMem_condition a) (comma_notMem_condition b) h
    obtain ⟨hname, hrest⟩ :=
      append_mark_inj (parenthesis_notMem_identifier a) (parenthesis_notMem_identifier b) h
    have hlabel : a = b := eq_of_texts (Kind.spelling_injective (String.toList_injective hkind))
      (String.toList_injective hcondition) (String.toList_injective hname)
    exact ⟨hlabel, hrest⟩
  ne_empty label rest others := by
    cases label <;> simp [chars, kind, Kind.spelling]

end Label

namespace Json

theorem endsNumeral_of_endsLabel {rest : List Char} (h : Tree.EndsLabel rest) :
    Reader.EndsNumeral rest := by
  intro c hc
  rcases h c hc with rfl | rfl | rfl <;> decide

/-- An integer is told from its text because it can be read back. -/
theorem legible_intChars : Tree.Legible fun n : Int64 ↦ intChars n.toInt where
  unique {m n rest rest'} hrest hrest' h := by
    have hm := Reader.integerValue_chars m (endsNumeral_of_endsLabel hrest)
    have hn := Reader.integerValue_chars n (endsNumeral_of_endsLabel hrest')
    rw [Reader.chars_ofInt] at hm hn
    have hread : (.ok (m, rest) : Except Failure (Int64 × List Char)) = .ok (n, rest') :=
      calc
        _ = Reader.integerValue (intChars m.toInt ++ rest) := hm.symm
        _ = Reader.integerValue (intChars n.toInt ++ rest') := by rw [h]
        _ = _ := hn
    simpa using hread
  ne_empty n rest others := by
    obtain ⟨c, digits, hdigits, hc⟩ := Reader.head_toDigits_isDigit n.toInt.natAbs
    have hparenthesis : c ≠ '(' := by
      intro h
      subst h
      cases hc
    unfold intChars
    split <;> simp [hdigits, hparenthesis]

end Json

/-- The text of a tree determines the tree, for trees of statement labels and for trees of 64-bit
integers, of any shape. -/
theorem Tree.text_determines_tree :
    Function.Injective (Tree.toText Label.chars) ∧
    Function.Injective (Tree.toText fun n : Int64 ↦ Json.intChars n.toInt) :=
  ⟨Label.legible_chars.toText_injective, Json.legible_intChars.toText_injective⟩

end BLTree

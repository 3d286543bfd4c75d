import BLTree.Json.Encode
import BLTree.Proofs.Json.Structures
import BLTree.Proofs.Runs

/-!
# Reading trees and statements back

A tree that is written compactly is read back as it was, as long as the brackets last. A node opens
two at once, its own and that of its children, so a tree is read exactly when twice its height is
within the budget; one level more stops the reader at the limit. A label may open one bracket as
well, but never one that its node does not also need for the children.
-/

namespace BLTree

open Json Json.Reader

namespace Identifier

/-- The text of a name passes the check of names. -/
theorem parse_text (name : Identifier) : parse name.text = .ok name := by
  unfold parse
  split
  · rename_i why hwhy
    rw [(rejection?_eq_none_iff name.text).mpr name.valid] at hwhy
    cases hwhy
  · rfl

/-- A name is taken back from its string. -/
theorem takesBack_reader (name : Identifier) :
    TakesBack Identifier.reader name.document.compact name := by
  intro rest
  have hread := takesBack_stringValue name.text rest
  rw [document, Document.compact]
  simp [reader, hread, readIdentifier, parse_text, Except.mapError, vetted]

end Identifier

namespace Condition

/-- The table of conditions is searched by spelling, and no spelling hides another. -/
theorem lookup_spelling (c : Condition) :
    (all.map fun c ↦ (c.spelling, Payload.nothing c)).lookup c.spelling = some (.nothing c) := by
  cases c <;> rfl

/-- A condition is taken back from its name, without a bracket. -/
theorem takesBack_reader (c : Condition) (budget : Nat) :
    TakesBack (Condition.reader budget) c.document.compact c := by
  rw [document, Document.compact]
  exact takesBack_variant_name c.lookup_spelling budget

end Condition

namespace Label

theorem lookup_payload (k : Kind) :
    (Kind.all.map fun k ↦ (k.spelling, payload k)).lookup k.spelling = some (payload k) := by
  cases k <;> rfl

theorem takesBack_reader_block (budget : Nat) :
    TakesBack (Label.reader budget) block.document.compact block := by
  rw [document, Document.compact]
  exact takesBack_variant_name (lookup_payload .block) budget

/-- A label with a payload is taken back if its payload is, with one bracket less. -/
theorem takesBack_reader_tagged {k : Kind} {read : Nat → Reader Label} {d : Document}
    {label : Label} {budget : Nat} (hpayload : payload k = .carried read)
    (hread : TakesBack (read budget) d.compact label) :
    TakesBack (Label.reader (budget + 1)) (Document.object [(k.spelling, d)]).compact label := by
  have hchoice := lookup_payload k
  rw [hpayload] at hchoice
  rw [Document.compact, Document.compactMembers]
  exact takesBack_variant_tagged hchoice hread

theorem takesBack_guarded (make : Condition → Label) (guard : Condition) (budget : Nat) :
    TakesBack (make <$> Condition.reader budget) guard.document.compact (make guard) := by
  intro rest
  rw [map_apply, guard.takesBack_reader budget rest]

/-- One bracket is enough for any label. -/
theorem takesBack_reader (label : Label) (budget : Nat) :
    TakesBack (Label.reader (budget + 1)) label.document.compact label := by
  cases label with
  | block => exact takesBack_reader_block (budget + 1)
  | ifThen guard => exact takesBack_reader_tagged rfl (takesBack_guarded ifThen guard budget)
  | ifElse guard => exact takesBack_reader_tagged rfl (takesBack_guarded ifElse guard budget)
  | whileDo guard => exact takesBack_reader_tagged rfl (takesBack_guarded whileDo guard budget)
  | call name =>
    have hread : TakesBack (call <$> Identifier.reader) name.document.compact (call name) := by
      intro rest
      rw [map_apply, name.takesBack_reader rest]
    exact takesBack_reader_tagged (k := .call) rfl hread

/-- Without a bracket left a label is read, or it is one bracket too many. -/
theorem reader_zero (label : Label) :
    TakesBack (Label.reader 0) label.document.compact label ∨
      Refuses (Label.reader 0) label.document.compact := by
  cases label with
  | block => exact .inl (takesBack_reader_block 0)
  | _ =>
    right
    rw [document, Document.compact]
    exact refuses_variant_zero _

end Label

namespace Json

/-- How the labels of a tree are written and read. Behind a label stands the comma before the
children, and a reader that has no bracket left may stop. -/
structure LabelCodec (L : Type) where
  document : L → Document
  reader : Nat → Reader L
  reads : ∀ l budget rest,
    reader (budget + 1) ((document l).compact ++ ',' :: rest) = .ok (l, ',' :: rest)
  readsOrStops : ∀ l,
    (∀ rest, reader 0 ((document l).compact ++ ',' :: rest) = .ok (l, ',' :: rest)) ∨
      Refuses (reader 0) (document l).compact

namespace LabelCodec

def words : LabelCodec String where
  document := .string
  reader _ := stringValue
  reads word _ rest := by
    rw [Document.compact]
    exact takesBack_stringValue word (',' :: rest)
  readsOrStops word := by
    rw [Document.compact]
    exact .inl fun rest ↦ takesBack_stringValue word (',' :: rest)

def integers : LabelCodec Int64 where
  document n := .number (.ofInt n.toInt)
  reader _ := integerValue
  reads n _ rest := by
    rw [Document.compact]
    exact integerValue_chars n (endsNumeral_comma rest)
  readsOrStops n := by
    rw [Document.compact]
    exact .inl fun rest ↦ integerValue_chars n (endsNumeral_comma rest)

def labels : LabelCodec Label where
  document := Label.document
  reader := Label.reader
  reads label budget rest := label.takesBack_reader budget (',' :: rest)
  readsOrStops label := label.reader_zero.imp_left fun h rest ↦ h (',' :: rest)

end LabelCodec

end Json

namespace Tree

variable {L : Type}

/-- No child is higher than the children are together. -/
theorem height_le_heightList {t : Tree L} {ts : List (Tree L)} (h : t ∈ ts) :
    t.height ≤ heightList ts := by
  induction ts with
  | nil => cases h
  | cons s ts ih =>
    rw [heightList]
    rcases List.mem_cons.mp h with rfl | h
    · exact Nat.le_max_left _ _
    · exact Nat.le_trans (ih h) (Nat.le_max_right _ _)

/-- Children that are higher than a bound together have one that is. -/
theorem exists_lt_height {bound : Nat} {ts : List (Tree L)} (h : bound < heightList ts) :
    ∃ t ∈ ts, bound < t.height := by
  induction ts with
  | nil => cases h
  | cons s ts ih =>
    rw [heightList] at h
    by_cases hs : bound < s.height
    · exact ⟨s, List.mem_cons_self, hs⟩
    · obtain ⟨t, ht, hlt⟩ := ih (by omega)
      exact ⟨t, List.mem_cons_of_mem s ht, hlt⟩

theorem documents_eq_map (write : L → Document) (ts : List (Tree L)) :
    documents write ts = ts.map (document write) := by
  induction ts with
  | nil => rfl
  | cons t ts ih => rw [documents, ih, List.map_cons]

/-- The members of a node, between its braces. -/
def nodeChars (labelText childrenText : List Char) : List Char :=
  stringChars "label" ++ ':' :: (labelText ++ ',' :: stringChars "children" ++ ':' :: childrenText)

theorem nodeChars_append (labelText childrenText rest : List Char) :
    nodeChars labelText childrenText ++ rest =
      stringChars "label" ++ ':' :: (labelText ++ ',' :: (stringChars "children" ++
        ':' :: (childrenText ++ rest))) := by
  simp only [nodeChars, List.append_assoc, List.cons_append]

/-- What is written for a node: its label and its children, in this order. -/
theorem compact_node (write : L → Document) (l : L) (children : List (Tree L)) :
    (document write (node l children)).compact =
      '\x7b' :: nodeChars (write l).compact
        (Document.array (children.map (document write))).compact ++ ['\x7d'] := by
  rw [document, documents_eq_map]
  simp [Document.compact, Document.compactMembers, nodeChars]

variable {label : Nat → Reader L} {child : Reader (Tree L)} {budget : Nat}

/-- How a node reads a member that it knows. -/
def nodeMember (label : Nat → Reader L) (child : Reader (Tree L)) (budget : Nat) (key : String)
    (draft : Draft L) : Option (Reader (Draft L)) :=
  match key with
  | "label" => some do
    let l ← once key draft.label (label budget)
    return { draft with label := some l }
  | "children" => some do
    let ts ← once key draft.children (childrenReader child budget)
    return { draft with children := some ts }
  | _ => none

theorem namedNode_eq : namedNode label child budget = (do
    let draft ← members {} (nodeMember label child budget)
    return node (← required "label" draft.label) (← required "children" draft.children)) := rfl

/-- The first round of a node reads the label. -/
theorem memberStep_label {text rest : List Char} {l : L} (h : label budget text = .ok (l, rest)) :
    memberStep (nodeMember label child budget) (true, {}) (stringChars "label" ++ ':' :: text) =
      .ok (.inl (false, { label := some l }), rest) :=
  memberStep_known rfl (by simp [once_none, h]) true

/-- The second round of a node reads the children. -/
theorem memberStep_children {text rest : List Char} {ts : List (Tree L)}
    (h : childrenReader child budget text = .ok (ts, rest)) (l : L) :
    memberStep (nodeMember label child budget) (false, { label := some l })
        (',' :: stringChars "children" ++ ':' :: text) =
      .ok (.inl (false, { label := some l, children := some ts }), rest) :=
  memberStep_known rfl (by simp [once_none, h]) false

/-- The first round fails as the label does. -/
theorem memberStep_label_of_error {text : List Char} {failure : Failure}
    (h : label budget text = .error failure) :
    memberStep (nodeMember label child budget) (true, {}) (stringChars "label" ++ ':' :: text) =
      .error failure :=
  memberStep_of_error rfl (by simp [once_none, h]) true

/-- The second round fails as the children do. -/
theorem memberStep_children_of_error {text : List Char} {failure : Failure}
    (h : childrenReader child budget text = .error failure) (l : L) :
    memberStep (nodeMember label child budget) (false, { label := some l })
        (',' :: stringChars "children" ++ ':' :: text) = .error failure :=
  memberStep_of_error rfl (by simp [once_none, h]) false

theorem three_le_rounds (labelText childrenText rest : List Char) :
    3 ≤ (nodeChars labelText childrenText ++ rest).length + 2 := by
  have hquote : stringChars "label" = '"' :: "label\"".toList := rfl
  rw [nodeChars_append, hquote, List.cons_append, List.length_cons]
  omega

/-- One round for each member and one for the closing brace. -/
theorem repeatFor_nodeMember {labelText childrenText : List Char} {l : L} {ts : List (Tree L)}
    (hlabel : ∀ rest, label budget (labelText ++ ',' :: rest) = .ok (l, ',' :: rest))
    (hchildren : TakesBack (childrenReader child budget) childrenText ts) {rounds : Nat}
    (hrounds : 3 ≤ rounds) (rest : List Char) :
    repeatFor (memberStep (nodeMember label child budget)) rounds (true, {})
        (nodeChars labelText childrenText ++ '\x7d' :: rest) =
      .ok ({ label := some l, children := some ts }, '\x7d' :: rest) := by
  obtain ⟨rounds, rfl⟩ := Nat.exists_eq_add_of_le' hrounds
  rw [nodeChars_append]
  calc
    repeatFor (memberStep (nodeMember label child budget)) (rounds + 3) (true, {})
        (stringChars "label" ++ ':' :: (labelText ++ ',' :: (stringChars "children" ++
          ':' :: (childrenText ++ '\x7d' :: rest)))) =
      repeatFor (memberStep (nodeMember label child budget)) (rounds + 2)
        (false, { label := some l })
        (',' :: stringChars "children" ++ ':' :: (childrenText ++ '\x7d' :: rest)) :=
      repeatFor_inl (memberStep_label (hlabel _)) (rounds + 2)
    _ = repeatFor (memberStep (nodeMember label child budget)) (rounds + 1)
        (false, { label := some l, children := some ts }) ('\x7d' :: rest) :=
      repeatFor_inl (memberStep_children (hchildren _) l) (rounds + 1)
    _ = .ok ({ label := some l, children := some ts }, '\x7d' :: rest) :=
      repeatFor_inr (memberStep_close false rest) rounds

/-- A node is taken back up to its closing brace. -/
theorem namedNode_nodeChars {labelText childrenText : List Char} {l : L} {ts : List (Tree L)}
    (hlabel : ∀ rest, label budget (labelText ++ ',' :: rest) = .ok (l, ',' :: rest))
    (hchildren : TakesBack (childrenReader child budget) childrenText ts) (rest : List Char) :
    namedNode label child budget (nodeChars labelText childrenText ++ '\x7d' :: rest) =
      .ok (node l ts, '\x7d' :: rest) := by
  have hrounds := three_le_rounds labelText childrenText ('\x7d' :: rest)
  have hmembers := repeatFor_nodeMember hlabel hchildren hrounds rest
  rw [namedNode_eq, members_eq, repeatFrom, bind_apply, bind_apply, get_apply]
  simp only [hmembers]
  rfl

/-- A node is refused if its rounds come to an end for that reason, however many there may be. -/
theorem refuses_namedNode_of_rounds {labelText childrenText left : List Char}
    (hsuffix : left <:+ nodeChars labelText childrenText)
    (h : ∀ rounds rest, repeatFor (memberStep (nodeMember label child budget)) (rounds + 3)
        (true, {}) (nodeChars labelText childrenText ++ rest) =
      .error ⟨.breach .tooDeep, left ++ rest, some 1⟩) :
    Refuses (namedNode label child budget) (nodeChars labelText childrenText) := by
  rw [namedNode_eq, members_eq, repeatFrom]
  apply Refuses.bind
  refine ⟨left, hsuffix, fun rest ↦ ?_⟩
  obtain ⟨rounds, hrounds⟩ :=
    Nat.exists_eq_add_of_le' (three_le_rounds labelText childrenText rest)
  rw [bind_apply, get_apply]
  dsimp only
  rw [hrounds]
  exact h rounds rest

/-- A node is refused for its children, unless it has been refused for its label before. -/
theorem refuses_namedNode {labelText childrenText : List Char} {l : L}
    (hlabel : (∀ rest, label budget (labelText ++ ',' :: rest) = .ok (l, ',' :: rest)) ∨
      Refuses (label budget) labelText)
    (hchildren : Refuses (childrenReader child budget) childrenText) :
    Refuses (namedNode label child budget) (nodeChars labelText childrenText) := by
  rcases hlabel with hread | hdeep
  · have hbehind : childrenText <:+ nodeChars labelText childrenText :=
      ⟨stringChars "label" ++ ':' :: (labelText ++ ',' :: stringChars "children" ++ [':']),
        by simp [nodeChars]⟩
    obtain ⟨left, hsuffix, hleft⟩ := hchildren
    refine refuses_namedNode_of_rounds (hsuffix.trans hbehind) fun rounds rest ↦ ?_
    rw [nodeChars_append, repeatFor_inl (memberStep_label (hread _))]
    exact repeatFor_of_error (memberStep_children_of_error (hleft rest) l) (rounds + 1)
  · have hbehind : labelText ++ ',' :: (stringChars "children" ++ ':' :: childrenText) <:+
        nodeChars labelText childrenText :=
      ⟨stringChars "label" ++ [':'], by simp [nodeChars]⟩
    obtain ⟨left, hsuffix, hleft⟩ :=
      hdeep.append (',' :: (stringChars "children" ++ ':' :: childrenText))
    refine refuses_namedNode_of_rounds (hsuffix.trans hbehind) fun rounds rest ↦ ?_
    have hstop := hleft rest
    rw [nodeChars_append]
    refine repeatFor_of_error (memberStep_label_of_error ?_) (rounds + 2)
    simpa using hstop

theorem childrenReader_array (ds : List Document) (rest : List Char) :
    childrenReader child budget ((Document.array ds).compact ++ rest) =
      enclosed closeList (fun _ ↦ items child) budget ((Document.array ds).compact ++ rest) := by
  rw [Document.compact, List.cons_append, List.cons_append, childrenReader, bind_apply,
    demand_cons (by decide)]
  rfl

theorem readerWith_brace (text : List Char) :
    readerWith label child budget ('\x7b' :: text) =
      enclosed closeObject (namedNode label child) budget ('\x7b' :: text) := by
  have hdemand := demand_cons (show isBlank '\x7b' = false by decide) text
  rw [readerWith, bind_apply, upcoming_cons (by decide)]
  simp [record, hdemand]

/-- The empty tree is read from `null`, without a bracket. -/
theorem takesBack_null : TakesBack (readerWith label child budget) "null".toList empty := by
  intro rest
  have hword := takesBack_word "null".toList rest
  obtain ⟨tail, hcons⟩ : ∃ tail, "null".toList ++ rest = 'n' :: tail := ⟨_, rfl⟩
  rw [hcons] at hword ⊢
  rw [readerWith, bind_apply, upcoming_cons (by decide)]
  simp only [↓reduceIte]
  rw [bind_apply, hword]
  rfl

theorem readerWith_node (write : L → Document) (l : L) (children : List (Tree L))
    (rest : List Char) :
    readerWith label child budget (((node l children).document write).compact ++ rest) =
      enclosed closeObject (namedNode label child) budget ('\x7b' ::
        (nodeChars (write l).compact (Document.array (children.map (document write))).compact ++
          '\x7d' :: rest)) := by
  rw [compact_node, List.cons_append, List.cons_append, readerWith_brace, List.append_assoc,
    List.singleton_append]

/-! ## Whole trees -/

variable (codec : LabelCodec L)

/-- With two brackets a node is taken back if its children are taken back with the rest of the
budget. -/
theorem takesBack_node (l : L) {children : List (Tree L)}
    (hchild : ∀ t ∈ children, TakesBack child (t.document codec.document).compact t)
    (budget : Nat) :
    TakesBack (readerWith codec.reader child (budget + 2))
      ((node l children).document codec.document).compact (node l children) := by
  have hchildren : TakesBack (childrenReader child (budget + 1))
      (Document.array (children.map (document codec.document))).compact children := by
    intro rest
    rw [childrenReader_array]
    exact takesBack_list hchild budget rest
  intro rest
  have hmembers := namedNode_nodeChars (codec.reads l budget) hchildren rest
  rw [readerWith_node]
  exact enclosed_ok hmembers (closeObject_brace rest) '\x7b'

/-- A node is refused if its children are. -/
theorem refuses_node {l : L} {children : List (Tree L)} {budget : Nat}
    (hlabel : (∀ rest, codec.reader budget ((codec.document l).compact ++ ',' :: rest) =
        .ok (l, ',' :: rest)) ∨ Refuses (codec.reader budget) (codec.document l).compact)
    (hchildren : Refuses (childrenReader child budget)
      (Document.array (children.map (document codec.document))).compact) :
    Refuses (readerWith codec.reader child (budget + 1))
      ((node l children).document codec.document).compact := by
  rw [compact_node, List.cons_append]
  exact (((refuses_namedNode hlabel hchildren).append ['\x7d']).enclosed '\x7b').congr fun rest ↦
    readerWith_brace _

/-- A node is refused for the first of its children that is refused. -/
theorem refuses_node_of_child (l : L) {children : List (Tree L)}
    (hchild : ∀ t ∈ children, TakesBack child (t.document codec.document).compact t ∨
      Refuses child (t.document codec.document).compact)
    (hrefused : ∃ t ∈ children, Refuses child (t.document codec.document).compact) (budget : Nat) :
    Refuses (readerWith codec.reader child (budget + 2))
      ((node l children).document codec.document).compact :=
  refuses_node codec (.inl (codec.reads l budget))
    ((refuses_list hchild hrefused budget).congr (childrenReader_array _))

/-- With a single bracket left a node is entered, but its children are not. -/
theorem refuses_node_one (l : L) (children : List (Tree L)) :
    Refuses (readerWith codec.reader child 1)
      ((node l children).document codec.document).compact :=
  refuses_node codec (codec.readsOrStops l)
    ((refuses_enclosed_zero _ _ _).congr (childrenReader_array _))

/-- Without a bracket no node is entered. -/
theorem refuses_node_zero (l : L) (children : List (Tree L)) :
    Refuses (readerWith codec.reader child 0)
      ((node l children).document codec.document).compact := by
  rw [compact_node, List.cons_append]
  exact (refuses_enclosed_zero _ _ _).congr fun rest ↦ readerWith_brace _

theorem takesBack_empty (budget : Nat) :
    TakesBack (reader label budget) "null".toList (empty : Tree L) := by
  unfold reader
  split <;> exact takesBack_null

/-- Two brackets for each level are enough. -/
theorem takesBack_reader {t : Tree L} {budget : Nat} (h : 2 * t.height ≤ budget) :
    TakesBack (reader codec.reader budget) (t.document codec.document).compact t := by
  induction t generalizing budget with
  | empty => exact takesBack_empty budget
  | node l children ih =>
    rw [height] at h
    obtain ⟨budget, rfl⟩ : ∃ left, budget = left + 2 := Nat.exists_eq_add_of_le' (by omega)
    have hchildren : ∀ child ∈ children,
        TakesBack (reader codec.reader budget) (child.document codec.document).compact child := by
      intro child hchild
      have hheight := height_le_heightList hchild
      apply ih child hchild
      omega
    exact takesBack_node codec l hchildren budget

/-- Fewer than two brackets for each level are not. -/
theorem refuses_reader {t : Tree L} {budget : Nat} (h : budget < 2 * t.height) :
    Refuses (reader codec.reader budget) (t.document codec.document).compact := by
  induction t generalizing budget with
  | empty => cases h
  | node l children ih =>
    rw [height] at h
    match budget with
    | 0 => exact refuses_node_zero codec l children
    | 1 => exact refuses_node_one codec l children
    | budget + 2 =>
      apply refuses_node_of_child codec l
      · intro child hchild
        by_cases hdeep : budget < 2 * child.height
        · exact .inr (ih child hchild hdeep)
        · exact .inl (takesBack_reader codec (Nat.le_of_not_lt hdeep))
      · -- A highest child is too high for what is left of the budget.
        have hlist : budget / 2 < heightList children := by omega
        obtain ⟨child, hchild, hdeep⟩ := exists_lt_height hlist
        exact ⟨child, hchild, ih child hchild (by omega)⟩

end Tree

/-! ## Whole texts -/

namespace Json

variable {α : Type} {reader : Nat → Reader α} {d : Document} {a : α}

/-- A text that is taken back from the start is decoded, since nothing is left of it. -/
theorem decode_of_takesBack (h : TakesBack (reader nestingLimit) d.compact a) :
    decode reader d.toText = .ok a := by
  have hread := h []
  rw [List.append_nil] at hread
  rw [decode, Document.toList_toText, decodeChars, hread]
  rfl

theorem decode_of_tooDeep (h : TooDeep (reader nestingLimit d.compact)) :
    ∃ failure, decode reader d.toText = .error failure ∧ failure.cause = .breach .tooDeep := by
  obtain ⟨left, hread⟩ := h
  refine ⟨⟨.breach .tooDeep, left, some 1⟩, ?_, rfl⟩
  rw [decode, Document.toList_toText, decodeChars, hread]
  rfl

/-- A document that is refused from the start is not decoded, for its depth. -/
theorem decode_of_refuses (h : Refuses (reader nestingLimit) d.compact) :
    ∃ failure, decode reader d.toText = .error failure ∧ failure.cause = .breach .tooDeep := by
  have hdeep := h.tooDeep []
  rw [List.append_nil] at hdeep
  exact decode_of_tooDeep hdeep

/-- What is written for a value with the given number of levels is decoded to that value up to 63
levels, and refused for its depth from 64 levels on. -/
structure RestoredByHeight (reader : Nat → Reader α) (d : Document) (a : α) (height : Nat) :
    Prop where
  shallow : height ≤ 63 → decode reader d.toText = .ok a
  deep : 64 ≤ height → ∃ failure, decode reader d.toText = .error failure ∧
    failure.cause = .breach .tooDeep ∧ failure.cause.message = "recursion limit exceeded"

theorem RestoredByHeight.of_budget {height : Nat}
    (hshallow : 2 * height ≤ nestingLimit → TakesBack (reader nestingLimit) d.compact a)
    (hdeep : nestingLimit < 2 * height → Refuses (reader nestingLimit) d.compact) :
    RestoredByHeight reader d a height where
  shallow h := by
    have hbudget : 2 * height ≤ nestingLimit := by
      rw [nestingLimit]
      omega
    exact decode_of_takesBack (hshallow hbudget)
  deep h := by
    have hbudget : nestingLimit < 2 * height := by
      rw [nestingLimit]
      omega
    obtain ⟨failure, hdecode, hcause⟩ := decode_of_refuses (hdeep hbudget)
    have hmessage : failure.cause.message = "recursion limit exceeded" := by
      rw [hcause]
      rfl
    exact ⟨failure, hdecode, hcause, hmessage⟩

end Json

/-- A tree is restored by its height, whatever its labels are. -/
theorem Tree.restoredByHeight {L : Type} (codec : LabelCodec L) (t : Tree L) :
    RestoredByHeight (Tree.reader codec.reader) (t.document codec.document) t t.height :=
  .of_budget (takesBack_reader codec) (refuses_reader codec)

namespace Statement

/-- The shape check never stands in the way of a sound statement. -/
theorem Sound.takesBack_reader {s : Statement} (hs : s.Sound) {budget : Nat}
    (h : 2 * s.tree.height ≤ budget) :
    TakesBack (Statement.reader budget) s.document.compact s := by
  have hcheck : ofTree s.tree = .ok s := sound_iff_ofTree.mp hs
  intro rest
  have hread : Tree.reader Label.reader budget (s.document.compact ++ rest) =
      .ok (s.tree, rest) := Tree.takesBack_reader .labels h rest
  simp [Statement.reader, hread, hcheck, Except.mapError, vetted]

/-- A statement that is too high is refused before its shape is looked at. -/
theorem refuses_reader {s : Statement} {budget : Nat} (h : budget < 2 * s.tree.height) :
    Refuses (Statement.reader budget) s.document.compact :=
  (Tree.refuses_reader .labels h).bind _

theorem Sound.restoredByHeight {s : Statement} (hs : s.Sound) :
    RestoredByHeight Statement.reader s.document s s.tree.height :=
  .of_budget hs.takesBack_reader refuses_reader

/-- A given number of loops inside of each other, around an empty block. -/
def loops (guard : Condition) : Nat → Statement
  | 0 => emptyBlock
  | n + 1 => ⟨.node .block [.node (.whileDo guard) [(loops guard n).tree]]⟩

theorem height_loops (guard : Condition) (n : Nat) : (loops guard n).tree.height = 2 * n + 1 := by
  induction n with
  | zero => rfl
  | succ n ih =>
    simp only [loops, Tree.height, Tree.heightList, ih]
    omega

/-- The body of each loop is a block. -/
theorem isBlock_loops (guard : Condition) (n : Nat) : IsBlock (loops guard n).tree := by
  cases n <;> rfl

/-- Loops inside of each other are well-shaped at any depth. -/
theorem sound_loops (guard : Condition) (n : Nat) : (loops guard n).Sound := by
  induction n with
  | zero => exact sound_emptyBlock
  | succ n ih =>
    have hloop : WellShaped (.node (.whileDo guard) [(loops guard n).tree]) :=
      wellShaped_whileDo.mpr ⟨_, rfl, ih, isBlock_loops guard n⟩
    exact wellShaped_block.mpr (List.forall_mem_singleton.mpr ⟨hloop, nofun⟩)

end Statement

/-- Trees of words, of integers and of statement labels, whatever their shape, and all statements
that runs can lead to, are restored from what is written for them up to 63 levels. From 64 levels on
the text is refused for its depth, a statement never for its shape. -/
theorem trees_and_statements_restored_by_height :
    (∀ t : Tree String,
      RestoredByHeight (Tree.reader fun _ ↦ stringValue) (t.document .string) t t.height) ∧
    (∀ t : Tree Int64,
      RestoredByHeight (Tree.reader fun _ ↦ integerValue)
        (t.document fun n ↦ .number (.ofInt n.toInt)) t t.height) ∧
    (∀ t : Tree Label,
      RestoredByHeight (Tree.reader Label.reader) (t.document Label.document) t t.height) ∧
    ∀ s : Statement, s.Reachable →
      RestoredByHeight Statement.reader s.document s s.tree.height := by
  refine ⟨fun t ↦ ?_, fun t ↦ ?_, fun t ↦ ?_, fun s hs ↦ ?_⟩
  · exact t.restoredByHeight .words
  · exact t.restoredByHeight .integers
  · exact t.restoredByHeight .labels
  · exact hs.sound.restoredByHeight

end BLTree

import BLTree.Proofs.Json.Records
import BLTree.Proofs.Json.Trees

/-!
# Trees and statements that are accepted

The readers of conditions, labels, trees and statements accept exactly the documents that spell one,
with at most as many brackets inside each other as the budget allows. A tree is read with two
brackets less for each level, so the induction is on the budget in steps of two.
-/

namespace BLTree

open Json Json.Reader

/-- A word that is accepted as a name is kept as it stands. -/
theorem readIdentifier_eq_ok_iff {word : String} {name : Identifier} :
    readIdentifier word = .ok name ↔ word = name.text := by
  rw [readIdentifier, mapError_eq_ok_iff]
  constructor
  · intro h
    unfold Identifier.parse at h
    split at h
    · cases h
    · rw [← Except.ok.inj h]
  · rintro rfl
    exact name.parse_text

/-- Names are spelled by strings only, and each by one. -/
theorem Identifier.decides_reader (d : Document) :
    Decides Identifier.reader d.compact fun name ↦ d = .string name.text := by
  apply ((decides_stringValue d).vetted readIdentifier).iff
  intro name
  simp [readIdentifier_eq_ok_iff]

namespace Condition

/-- The table of conditions has one entry for each spelling, and spellings do not clash. -/
theorem lookup_nothing_iff (name : String) (c : Condition) :
    (all.map fun c ↦ (c.spelling, Payload.nothing c)).lookup name = some (.nothing c) ↔
      c.spelling = name := by
  rw [lookup_spelling_iff lookup_spelling]
  simp

/-- A condition is spelled by its name alone or, at the cost of a bracket, with a payload of `null`.
-/
theorem decides_reader (d : Document) (budget : Nat) :
    Decides (Condition.reader budget) d.compact fun c ↦ ∃ n ≤ budget, c.Spelled d n := by
  have hpayload : ∀ name payload,
      (all.map fun c ↦ (c.spelling, Payload.nothing c)).lookup name = some payload →
        ∀ budget d, Decides (payload.value budget) (Document.compact d) fun c ↦
          d = .null ∧ c.spelling = name := by
    intro name payload hname budget d
    obtain ⟨c, -, rfl⟩ := (lookup_spelling_iff lookup_spelling name payload).mp hname
    apply ((decides_nullValue d).map fun _ ↦ c).iff
    intro other
    rw [← lookup_nothing_iff name other, hname]
    simp
  apply (decides_variant hpayload d budget).iff
  intro c
  constructor
  · rintro (⟨name, rfl, hname⟩ | ⟨name, _, payload, left, rfl, rfl, -, rfl, rfl⟩)
    · obtain rfl := (lookup_nothing_iff name c).mp hname
      exact ⟨0, Nat.zero_le budget, .name c⟩
    · exact ⟨1, Nat.le_add_left 1 left, .tagged c⟩
  · rintro ⟨n, hn, h⟩
    cases h with
    | name => exact .inl ⟨c.spelling, rfl, c.lookup_spelling⟩
    | tagged =>
      obtain ⟨left, rfl⟩ := Nat.exists_eq_add_of_le' hn
      exact .inr ⟨c.spelling, .null, _, left, rfl, rfl, c.lookup_spelling, rfl, rfl⟩

end Condition

theorem Kind.spelling_injective : Function.Injective Kind.spelling := by
  intro a b h
  cases a <;> cases b <;> first | rfl | simp [spelling] at h

namespace Label

/-- Labels that carry a condition are spelled by the spellings of the condition. -/
theorem decides_guarded {k : Kind} {make : Condition → Label} {d : Document}
    (hmake : ∀ {guard : Condition} {n : Nat}, guard.Spelled d n → Carried k d (make guard) n)
    (hguard : ∀ {label : Label} {n : Nat}, Carried k d label n →
      ∃ guard, guard.Spelled d n ∧ make guard = label)
    (budget : Nat) :
    Decides (make <$> Condition.reader budget) d.compact fun label ↦
      ∃ n ≤ budget, Carried k d label n := by
  have hmap : Decides (make <$> Condition.reader budget) d.compact _ :=
    (Condition.decides_reader d budget).map make
  apply hmap.iff
  intro label
  constructor
  · rintro ⟨guard, ⟨n, hn, h⟩, rfl⟩
    exact ⟨n, hn, hmake h⟩
  · rintro ⟨n, hn, h⟩
    obtain ⟨guard, hspelled, rfl⟩ := hguard h
    exact ⟨guard, ⟨n, hn, hspelled⟩, rfl⟩

/-- Each kind of label accepts the payloads that it can carry and no others. -/
theorem decides_payload (k : Kind) (budget : Nat) (d : Document) :
    Decides ((payload k).value budget) d.compact fun label ↦ ∃ n ≤ budget, Carried k d label n := by
  cases k with
  | block =>
    apply ((decides_nullValue d).map fun _ ↦ block).iff
    intro label
    constructor
    · rintro ⟨_, rfl, rfl⟩
      exact ⟨0, Nat.zero_le budget, .block⟩
    · rintro ⟨n, -, h⟩
      cases h with
      | block => exact ⟨(), rfl, rfl⟩
  | ifThen =>
    refine decides_guarded .ifThen (fun h ↦ ?_) budget
    cases h with
    | ifThen h => exact ⟨_, h, rfl⟩
  | ifElse =>
    refine decides_guarded .ifElse (fun h ↦ ?_) budget
    cases h with
    | ifElse h => exact ⟨_, h, rfl⟩
  | whileDo =>
    refine decides_guarded .whileDo (fun h ↦ ?_) budget
    cases h with
    | whileDo h => exact ⟨_, h, rfl⟩
  | call =>
    have hcall : Decides (call <$> Identifier.reader) d.compact _ :=
      (Identifier.decides_reader d).map call
    apply hcall.iff
    intro label
    constructor
    · rintro ⟨name, rfl, rfl⟩
      exact ⟨0, Nat.zero_le budget, .call name⟩
    · rintro ⟨n, -, h⟩
      cases h with
      | call name => exact ⟨name, rfl, rfl⟩

/-- A label is spelled by its kind with what the kind carries; only a block may go without. -/
theorem decides_reader (d : Document) (budget : Nat) :
    Decides (Label.reader budget) d.compact fun label ↦ ∃ n ≤ budget, label.Spelled d n := by
  have hpayload : ∀ name payload,
      (Kind.all.map fun k ↦ (k.spelling, Label.payload k)).lookup name = some payload →
        ∀ budget d, Decides (payload.value budget) (Document.compact d) fun label ↦
          ∃ k : Kind, k.spelling = name ∧ ∃ n ≤ budget, Carried k d label n := by
    intro name payload hname budget d
    obtain ⟨k, rfl, rfl⟩ := (lookup_spelling_iff lookup_payload name payload).mp hname
    apply (decides_payload k budget d).iff
    intro label
    constructor
    · intro h
      exact ⟨k, rfl, h⟩
    · rintro ⟨other, hother, h⟩
      obtain rfl := Kind.spelling_injective hother
      exact h
  apply (decides_variant hpayload d budget).iff
  intro label
  constructor
  · rintro (⟨name, rfl, hname⟩ | ⟨_, value, payload, left, rfl, rfl, -, k, rfl, n, hn, h⟩)
    · obtain ⟨k, rfl, hk⟩ := (lookup_spelling_iff lookup_payload name _).mp hname
      cases k <;> cases hk
      exact ⟨0, Nat.zero_le budget, .block⟩
    · exact ⟨n + 1, Nat.succ_le_succ hn, .tagged h⟩
  · rintro ⟨n, hn, h⟩
    cases h with
    | block => exact .inl ⟨_, rfl, lookup_payload .block⟩
    | @tagged k value _ n h =>
      obtain ⟨left, rfl⟩ := Nat.exists_eq_add_of_le' (Nat.le_trans (Nat.le_add_left 1 n) hn)
      exact .inr ⟨k.spelling, value, _, left, rfl, rfl, lookup_payload k, k, rfl, n,
        Nat.le_of_succ_le_succ hn, h⟩

end Label

namespace Tree

/-! ## Nodes -/

variable {L : Type} {label : Nat → Reader L} {child : Reader (Tree L)}
  {labelMeans : Nat → Document → L → Prop} {childMeans : Document → Tree L → Prop}

/-- What the children of a node are, given what each of them is. -/
def ChildrenMean (childMeans : Document → Tree L → Prop) (budget : Nat) (d : Document)
    (children : List (Tree L)) : Prop :=
  ∃ items left, d = .array items ∧ budget = left + 1 ∧ List.Forall₂ childMeans items children

/-- The children of a node are spelled by a list, for which a bracket is spent. -/
theorem decides_childrenReader (hchild : ∀ d : Document, Decides child d.compact (childMeans d))
    (budget : Nat) (d : Document) :
    Decides (childrenReader child budget) d.compact (ChildrenMean childMeans budget d) := by
  apply decides_demanded
  · intro hbracket
    obtain ⟨items, rfl⟩ := Document.initial_eq_bracket_iff.mp hbracket
    apply (decides_list hchild items budget).iff
    simp [ChildrenMean]
  · rintro children ⟨items, left, rfl, -⟩
    rfl

/-- What a member makes of the draft of a node. -/
def NodeAbsorbs (labelMeans : Document → L → Prop) (childrenMean : Document → List (Tree L) → Prop)
    (member : String × Document) (draft next : Draft L) : Prop :=
  match member.1 with
  | "label" => ∃ l, (draft.label = none ∧ labelMeans member.2 l) ∧
      { draft with label := some l } = next
  | "children" => ∃ ts, (draft.children = none ∧ childrenMean member.2 ts) ∧
      { draft with children := some ts } = next
  | _ => next = draft

theorem fills_nodeMember
    (hlabel : ∀ budget (d : Document), Decides (label budget) d.compact (labelMeans budget d))
    (hchild : ∀ d : Document, Decides child d.compact (childMeans d)) (budget : Nat) :
    Fills (nodeMember label child budget)
      (NodeAbsorbs (labelMeans budget) (ChildrenMean childMeans budget)) where
  known key draft read hread d := by
    unfold nodeMember at hread
    split at hread
    · cases hread
      exact (decides_once (hlabel budget d)).map _
    · cases hread
      exact (decides_once (decides_childrenReader hchild budget d)).map _
    · cases hread
  unknown key draft hread d next := by
    unfold nodeMember at hread
    split at hread
    · cases hread
    · cases hread
    · simp [NodeAbsorbs]

variable {fieldMeans : Document → L → Prop} {childrenMean : Document → List (Tree L) → Prop}

theorem absorbed_node_iff {members : List (String × Document)} {draft result : Draft L} :
    Absorbed (NodeAbsorbs fieldMeans childrenMean) members draft result ↔
      Filled fieldMeans (valuesAt "label" members) draft.label result.label ∧
        Filled childrenMean (valuesAt "children" members) draft.children result.children := by
  induction members generalizing draft with
  | nil =>
    obtain ⟨l, ts⟩ := draft
    obtain ⟨l', ts'⟩ := result
    simp [Absorbed, Filled, valuesAt]
  | cons member members ih =>
    obtain ⟨key, d⟩ := member
    simp only [Absorbed, ih]
    by_cases hlabel : key = "label"
    · subst hlabel
      rw [valuesAt_cons_self, valuesAt_cons_of_ne (by decide)]
      constructor
      · rintro ⟨_, ⟨l, ⟨hnone, hl⟩, rfl⟩, hlabels, hlists⟩
        exact ⟨⟨hnone, l, hl, hlabels⟩, hlists⟩
      · rintro ⟨⟨hnone, l, hl, hlabels⟩, hlists⟩
        exact ⟨_, ⟨l, ⟨hnone, hl⟩, rfl⟩, hlabels, hlists⟩
    · by_cases hchildren : key = "children"
      · subst hchildren
        rw [valuesAt_cons_self, valuesAt_cons_of_ne (by decide)]
        constructor
        · rintro ⟨_, ⟨ts, ⟨hnone, hts⟩, rfl⟩, hlabels, hlists⟩
          exact ⟨hlabels, hnone, ts, hts, hlists⟩
        · rintro ⟨hlabels, hnone, ts, hts, hlists⟩
          exact ⟨_, ⟨ts, ⟨hnone, hts⟩, rfl⟩, hlabels, hlists⟩
      · rw [valuesAt_cons_of_ne hlabel, valuesAt_cons_of_ne hchildren]
        simp [NodeAbsorbs]

/-- What a node is, given the documents of its label and of its children. -/
def NodeMeans (labelMeans : Nat → Document → L → Prop) (childMeans : Document → Tree L → Prop)
    (budget : Nat) (labelDocument childrenDocument : Document) (t : Tree L) : Prop :=
  ∃ l children, labelMeans budget labelDocument l ∧
    ChildrenMean childMeans budget childrenDocument children ∧ node l children = t

/-- A node in its object form has both members exactly once, in any order and among any others. -/
theorem namedNode_eq_ok_iff
    (hlabel : ∀ budget (d : Document), Decides (label budget) d.compact (labelMeans budget d))
    (hchild : ∀ d : Document, Decides child d.compact (childMeans d))
    (members : List (String × Document)) (budget : Nat) (rest : List Char) (t : Tree L)
    (left : List Char) :
    namedNode label child budget (Document.membersFrom true members ++ '\x7d' :: rest) =
        .ok (t, left) ↔
      (∃ labelDocument childrenDocument, valuesAt "label" members = [labelDocument] ∧
        valuesAt "children" members = [childrenDocument] ∧
        NodeMeans labelMeans childMeans budget labelDocument childrenDocument t) ∧
      left = '\x7d' :: rest := by
  rw [namedNode_eq]
  simp only [bind_eq_ok_iff, members_eq_ok_iff (fills_nodeMember hlabel hchild budget),
    absorbed_node_iff, required_eq_ok_iff, pure_eq_ok_iff]
  constructor
  · rintro ⟨draft, _, ⟨⟨hl, hts⟩, rfl⟩, l, _, ⟨hfirst, rfl⟩, ts, _, ⟨hsecond, rfl⟩, rfl, rfl⟩
    rw [hfirst] at hl
    rw [hsecond] at hts
    obtain ⟨labelDocument, hlabels, hl⟩ := filled_none_some_iff.mp hl
    obtain ⟨childrenDocument, hlists, hts⟩ := filled_none_some_iff.mp hts
    exact ⟨⟨labelDocument, childrenDocument, hlabels, hlists, l, ts, hl, hts, rfl⟩, rfl⟩
  · rintro ⟨⟨labelDocument, childrenDocument, hlabels, hlists, l, ts, hl, hts, rfl⟩, rfl⟩
    have hfirst := filled_none_some_iff.mpr ⟨labelDocument, hlabels, hl⟩
    have hsecond := filled_none_some_iff.mpr ⟨childrenDocument, hlists, hts⟩
    exact ⟨⟨some l, some ts⟩, _, ⟨⟨hfirst, hsecond⟩, rfl⟩, l, _, ⟨rfl, rfl⟩, ts, _, ⟨rfl, rfl⟩,
      rfl, rfl⟩

/-- In its list form a node has the label first and then the children; more items are left for the
bracket to complain about. -/
theorem positionalNode_eq_ok_iff
    (hlabel : ∀ budget (d : Document), Decides (label budget) d.compact (labelMeans budget d))
    (hchild : ∀ d : Document, Decides child d.compact (childMeans d)) (items : List Document)
    (budget : Nat) (rest : List Char) (t : Tree L) (left : List Char) :
    positionalNode label child budget (Document.itemsFrom true items ++ ']' :: rest) =
        .ok (t, left) ↔
      ∃ more, (∃ labelDocument childrenDocument,
        items = labelDocument :: childrenDocument :: more ∧
          NodeMeans labelMeans childMeans budget labelDocument childrenDocument t) ∧
        left = Document.itemsFrom false more ++ ']' :: rest := by
  simp only [positionalNode, bind_eq_ok_iff, pure_eq_ok_iff]
  constructor
  · rintro ⟨l, _, hfirst, ts, _, hsecond, rfl, rfl⟩
    obtain ⟨labelDocument, _, rfl, hl, rfl⟩ := (place_eq_ok_iff (hlabel budget)).mp hfirst
    obtain ⟨childrenDocument, more, rfl, hts, rfl⟩ :=
      (place_eq_ok_iff (decides_childrenReader hchild budget)).mp hsecond
    exact ⟨more, ⟨labelDocument, childrenDocument, rfl, l, ts, hl, hts, rfl⟩, rfl⟩
  · rintro ⟨more, ⟨labelDocument, childrenDocument, rfl, l, ts, hl, hts, rfl⟩, rfl⟩
    exact ⟨l, _, (place_eq_ok_iff (hlabel budget)).mpr ⟨labelDocument, _, rfl, hl, rfl⟩, ts, _,
      (place_eq_ok_iff (decides_childrenReader hchild budget)).mpr
        ⟨childrenDocument, more, rfl, hts, rfl⟩, rfl, rfl⟩

/-- A tree is spelled by `null` or by a node in either form, given what spells labels and children.
-/
theorem decides_readerWith
    (hlabel : ∀ budget (d : Document), Decides (label budget) d.compact (labelMeans budget d))
    (hchild : ∀ d : Document, Decides child d.compact (childMeans d)) (budget : Nat)
    (d : Document) :
    Decides (readerWith label child budget) d.compact fun t ↦
      (d = .null ∧ empty = t) ∨ ∃ left labelDocument childrenDocument, budget = left + 1 ∧
        Fields d labelDocument childrenDocument ∧
          NodeMeans labelMeans childMeans left labelDocument childrenDocument t := by
  by_cases hnull : d.initial = 'n'
  · obtain rfl := Document.initial_eq_n_iff.mp hnull
    have htakes : TakesBack (readerWith label child budget) (Document.compact .null) empty :=
      takesBack_null
    apply htakes.decides.iff
    intro t
    constructor
    · intro h
      exact .inl ⟨rfl, h.symm⟩
    · rintro (⟨-, h⟩ | ⟨_, _, _, -, ⟨⟩, -⟩)
      exact h.symm
  · have hnode : Decides (readerWith label child budget) d.compact _ := fun rest hrest t left ↦ by
      rw [readerWith, bind_apply, upcoming_compact]
      simp only [Option.some.injEq, if_neg hnull]
      exact decides_record (namedNode_eq_ok_iff hlabel hchild)
        (positionalNode_eq_ok_iff hlabel hchild) d budget rest hrest t left
    apply hnode.iff
    intro t
    rw [Document.initial_eq_n_iff] at hnull
    constructor
    · rintro ⟨left, rfl, ⟨members, rfl, _, _, hlabels, hlists, h⟩ | ⟨items, rfl, _, _, rfl, h⟩⟩
      · exact .inr ⟨left, _, _, rfl, .named hlabels hlists, h⟩
      · exact .inr ⟨left, _, _, rfl, .positional _ _, h⟩
    · rintro (⟨rfl, -⟩ | ⟨left, _, _, rfl, hfields, h⟩)
      · exact absurd rfl hnull
      · cases hfields with
        | named hlabels hlists => exact ⟨left, rfl, .inl ⟨_, rfl, _, _, hlabels, hlists, h⟩⟩
        | positional => exact ⟨left, rfl, .inr ⟨_, rfl, _, _, rfl, h⟩⟩

end Tree

/-! ## Whole trees -/

namespace Tree

/-- Two brackets are spent on a node, its own and that of its children. -/
theorem exists_le_spelled_iff {budget : Nat} {childMeans : Document → Tree Label → Prop}
    (hchild : ∀ left, budget = left + 2 → ∀ d t, childMeans d t ↔ ∃ n ≤ left, Spelled d t n)
    (d : Document) (t : Tree Label) :
    ((d = .null ∧ empty = t) ∨ ∃ left labelDocument childrenDocument, budget = left + 1 ∧
      Fields d labelDocument childrenDocument ∧
        NodeMeans (fun budget d label ↦ ∃ n ≤ budget, label.Spelled d n) childMeans left
          labelDocument childrenDocument t) ↔ ∃ n ≤ budget, Spelled d t n := by
  constructor
  · rintro (⟨rfl, rfl⟩ | ⟨_, _, _, rfl, hfields, l, children, ⟨m, hm, hl⟩,
      ⟨items, left, rfl, rfl, hitems⟩, rfl⟩)
    · exact ⟨0, Nat.zero_le budget, .empty⟩
    · obtain ⟨n, hn, hchildren⟩ := exists_le_each_iff.mpr
        (hitems.imp fun d t ↦ (hchild left rfl d t).mp)
      exact ⟨max m (n + 1) + 1, by omega, .node hfields hl hchildren⟩
  · rintro ⟨n, hn, h⟩
    cases h with
    | empty => exact .inl ⟨rfl, rfl⟩
    | @node _ _ items l children m n hfields hl hchildren =>
      obtain ⟨left, rfl⟩ : ∃ left, budget = left + 2 := Nat.exists_eq_add_of_le' (by omega)
      have hitems : List.Forall₂ (fun d t ↦ ∃ n ≤ left, Spelled d t n) items children :=
        exists_le_each_iff.mp ⟨n, by omega, hchildren⟩
      exact .inr ⟨left + 1, _, _, rfl, hfields, l, children, ⟨m, by omega, hl⟩,
        ⟨items, left, rfl, rfl, hitems.imp fun d t ↦ (hchild left rfl d t).mpr⟩, rfl⟩

/-- The documents that are read as a tree are those that spell it with no more brackets than the
budget. -/
theorem decides_reader (budget : Nat) (d : Document) :
    Decides (Tree.reader Label.reader budget) d.compact fun t ↦ ∃ n ≤ budget, Spelled d t n := by
  have hlabel := fun budget d ↦ Label.decides_reader d budget
  have hnone : ∀ d : Document,
      Decides (failNext (.breach .tooDeep) : Reader (Tree Label)) d.compact fun _ ↦ False :=
    fun d ↦ decides_none nofun
  match budget with
  | 0 => exact (decides_readerWith hlabel hnone 0 d).iff (exists_le_spelled_iff (by omega) d)
  | 1 => exact (decides_readerWith hlabel hnone 1 d).iff (exists_le_spelled_iff (by omega) d)
  | budget + 2 =>
    refine (decides_readerWith hlabel (decides_reader budget) (budget + 2) d).iff
      (exists_le_spelled_iff ?_ d)
    intro left hleft d t
    rw [Nat.add_right_cancel hleft]

end Tree

/-- A statement is spelled by its tree; the shape check refuses all trees that are none. -/
theorem Statement.decides_reader (budget : Nat) (d : Document) :
    Decides (Statement.reader budget) d.compact fun s ↦ ∃ n ≤ budget, s.Spelled d n := by
  have hvetted := (Tree.decides_reader budget d).vetted fun t ↦ (ofTree t).mapError .tree
  apply hvetted.iff
  intro s
  simp only [mapError_eq_ok_iff, ofTree_eq_ok_iff]
  constructor
  · rintro ⟨_, ⟨n, hn, htree⟩, hshape, rfl⟩
    exact ⟨n, hn, htree, hshape⟩
  · rintro ⟨n, hn, htree, hshape⟩
    exact ⟨s.tree, ⟨n, hn, htree⟩, hshape, rfl⟩

end BLTree

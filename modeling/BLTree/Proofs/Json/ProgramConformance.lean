import BLTree.Load
import BLTree.Proofs.Json.TreeConformance

/-!
# Contexts and programs that are accepted

A context is filled member by member, and a name that it has already is refused. The order of the
members does not matter, because the entries of a context are sorted: two contexts with the same
entries are equal. A program is a record of three parts that are checked together at the end.
-/

namespace BLTree

open Json Json.Reader

namespace Context

theorem contains_eq_false_iff {c : Context} {name : Identifier} :
    c.contains name = false ↔ name.text ∉ c.names.map Identifier.text := by
  simp [contains, get?, names]

/-- Inserting puts the new entry somewhere among the others. -/
theorem perm_insertEntry {name : Identifier} (body : Statement)
    {entries : List (Identifier × Statement)} (h : name ∉ entries.map (·.1)) :
    (insertEntry name body entries).Perm ((name, body) :: entries) := by
  induction entries with
  | nil => exact .refl _
  | cons entry others ih =>
    rw [List.map_cons, List.mem_cons, not_or] at h
    unfold insertEntry
    split
    · exact .refl _
    · rw [if_neg h.1]
      exact ((ih h.2).cons entry).trans (.swap _ _ others)

/-- A context is determined by its entries, since they can be in one order only. -/
theorem eq_of_perm {a b : Context} (h : a.entries.Perm b.entries) : a = b := by
  obtain ⟨entries, hsorted⟩ := a
  have heq : entries = b.entries := by
    apply h.eq_of_pairwise ?_ hsorted b.sorted
    intro x y _ _ hxy hyx
    exact absurd (Identifier.lt_trans hxy hyx) (Identifier.lt_irrefl _)
  subst heq
  rfl

theorem nodup_texts (c : Context) : (c.names.map Identifier.text).Nodup :=
  List.Pairwise.map Identifier.text (fun _ _ hne h ↦ hne (Identifier.ext h)) c.nodup_names

/-- A new name is added, and no entry is lost. -/
theorem perm_insert {c : Context} {name : Identifier} (h : c.contains name = false)
    (body : Statement) : (c.insert name body).entries.Perm ((name, body) :: c.entries) := by
  apply perm_insertEntry
  intro hmem
  exact contains_eq_false_iff.mp h (List.mem_map_of_mem hmem)

theorem perm_texts_insert {c : Context} {name : Identifier} (h : c.contains name = false)
    (body : Statement) :
    ((c.insert name body).names.map Identifier.text).Perm
      (name.text :: c.names.map Identifier.text) :=
  ((perm_insert h body).map Prod.fst).map Identifier.text

/-! ## Reading contexts -/

/-- One round of `procedures`. -/
def procedureStep (budget : Nat) : Bool × Context → Reader ((Bool × Context) ⊕ Context) :=
  fun (first, c) ↦ do
    match ← anotherKey first with
    | none => return .inr c
    | some key =>
      let name ← vetted (readIdentifier key)
      colon
      let body ← Statement.reader budget
      if c.contains name then mismatch (.rejected (.program (.procedureTwice name)))
      else return .inl (false, c.insert name body)

theorem procedures_eq (budget : Nat) :
    procedures budget = repeatFrom (true, empty) (procedureStep budget) := rfl

/-- Once the name of a procedure is read, its body decides. -/
theorem procedureStep_member (budget : Nat) (first : Bool) (c : Context) (name : Identifier)
    (d : Document) (rest : List Char) :
    procedureStep budget (first, c) (memberChars first (name.text, d) ++ rest) =
      (Statement.reader budget >>= fun body ↦
        if c.contains name then mismatch (.rejected (.program (.procedureTwice name)))
        else pure (.inl (false, c.insert name body))) (d.compact ++ rest) := by
  have htext : memberChars first (name.text, d) ++ rest =
      separator first ++ stringChars name.text ++ (':' :: (d.compact ++ rest)) := by
    simp [memberChars]
  have hname (text : List Char) : vetted (readIdentifier name.text) text = .ok (name, text) :=
    vetted_eq_ok_iff.mpr ⟨readIdentifier_eq_ok_iff.mpr rfl, rfl⟩
  simp only [procedureStep]
  rw [htext, bind_of_ok (anotherKey_string first name.text _)]
  dsimp only
  rw [bind_of_ok (hname _), bind_of_ok (colon_cons _)]

/-- What a member makes of the procedures before it. -/
def ProcedureAbsorbs (budget : Nat) (member : String × Document) (c next : Context) : Prop :=
  ∃ name body, member.1 = name.text ∧ (∃ n ≤ budget, body.Spelled member.2 n) ∧
    c.contains name = false ∧ c.insert name body = next

/-- One round takes one member, if its name is an identifier and not taken yet. -/
theorem loop_procedureStep (budget : Nat) :
    Loop (procedureStep budget) memberChars Prod.fst
      (fun member state next ↦
        ∃ c, ProcedureAbsorbs budget member state.2 c ∧ (false, c) = next)
      Prod.snd .object where
  closes state rest := by
    obtain ⟨first, c⟩ := state
    simp only [procedureStep, Bracket.closing]
    rw [bind_apply, anotherKey_close]
    rfl
  takes state member := by
    obtain ⟨first, c⟩ := state
    obtain ⟨key, d⟩ := member
    intro rest hrest out left
    have htext : memberChars first (key, d) ++ rest =
        separator first ++ stringChars key ++ (':' :: (d.compact ++ rest)) := by
      simp [memberChars]
    have hbody := Statement.decides_reader budget d rest hrest
    simp only [procedureStep]
    rw [bind_apply, htext, anotherKey_string]
    simp only [bind_eq_ok_iff, vetted_eq_ok_iff, readIdentifier_eq_ok_iff]
    constructor
    · rintro ⟨name, _, ⟨rfl, rfl⟩, _, _, hcolon, body, _, hread, hlast⟩
      rw [colon_cons] at hcolon
      obtain ⟨-, rfl⟩ := Prod.mk.inj (Except.ok.inj hcolon)
      obtain ⟨hspelled, rfl⟩ := (hbody _ _).mp hread
      cases hcontains : c.contains name with
      | true =>
        rw [hcontains] at hlast
        cases hlast
      | false =>
        rw [hcontains] at hlast
        obtain ⟨rfl, rfl⟩ := pure_eq_ok_iff.mp hlast
        exact ⟨⟨_, ⟨_, ⟨name, body, rfl, hspelled, hcontains, rfl⟩, rfl⟩, rfl⟩, rfl⟩
    · rintro ⟨⟨_, ⟨_, ⟨name, body, rfl, hspelled, hcontains, rfl⟩, rfl⟩, rfl⟩, rfl⟩
      refine ⟨name, _, ⟨rfl, rfl⟩, (), _, colon_cons _, body, _,
        (hbody _ _).mpr ⟨hspelled, rfl⟩, ?_⟩
      rw [hcontains]
      rfl
  continues := by
    rintro member state next ⟨c, -, rfl⟩
    rfl
  nonempty := memberChars_ne_nil
  comma _ := rfl

/-- Members can be absorbed if all names, old and new, are different. What results is the order of
the names, by induction over the members. -/
theorem absorbed_procedures_iff {budget : Nat} {members : List (String × Document)}
    {c result : Context} :
    Absorbed (ProcedureAbsorbs budget) members c result ↔
      (members.map (·.1) ++ c.names.map Identifier.text).Nodup ∧
        ∃ entries, List.Forall₂ (fun member entry ↦ ∃ n ≤ budget, SpelledEntry member entry n)
          members entries ∧ (entries ++ c.entries).Perm result.entries := by
  induction members generalizing c with
  | nil =>
    constructor
    · rintro rfl
      exact ⟨c.nodup_texts, [], .nil, .refl _⟩
    · rintro ⟨-, _, ⟨⟩, hperm⟩
      exact eq_of_perm hperm
  | cons member members ih =>
    obtain ⟨key, d⟩ := member
    simp only [Absorbed, ih, List.map_cons, List.cons_append]
    -- A new name moves from the members to the context, which only permutes all names together.
    constructor
    · rintro ⟨_, ⟨name, body, rfl, ⟨n, hn, hbody⟩, hnew, rfl⟩, hnodup, entries, hentries, hperm⟩
      have htexts := (perm_texts_insert hnew body).append_left (members.map (·.1))
      have hinsert := (perm_insert hnew body).append_left entries
      refine ⟨(htexts.trans List.perm_middle).nodup_iff.mp hnodup, (name, body) :: entries,
        .cons ⟨n, hn, rfl, hbody⟩ hentries, ?_⟩
      exact (hinsert.trans List.perm_middle).symm.trans hperm
    · rintro ⟨hnodup, _, hentries, hperm⟩
      cases hentries with
      | @cons _ entry _ entries hentry hentries =>
        obtain ⟨name, body⟩ := entry
        obtain ⟨n, hn, rfl, hbody⟩ := hentry
        have hnew : c.contains name = false := contains_eq_false_iff.mpr fun hmem ↦
          (List.nodup_cons.mp hnodup).1 (List.mem_append_right _ hmem)
        have htexts := (perm_texts_insert hnew body).append_left (members.map (·.1))
        have hinsert := (perm_insert hnew body).append_left entries
        refine ⟨_, ⟨name, body, rfl, ⟨n, hn, hbody⟩, hnew, rfl⟩,
          (htexts.trans List.perm_middle).nodup_iff.mpr hnodup, entries, hentries, ?_⟩
        exact (hinsert.trans List.perm_middle).trans hperm

/-- The order of the members in the text leaves no trace in the context. -/
theorem procedures_eq_ok_iff (members : List (String × Document)) (budget : Nat) (rest : List Char)
    (c : Context) (left : List Char) :
    procedures budget (Document.membersFrom true members ++ '\x7d' :: rest) = .ok (c, left) ↔
      ((members.map (·.1)).Nodup ∧ ∃ entries, (∃ n ≤ budget, Each SpelledEntry members entries n) ∧
        entries.Perm c.entries) ∧ left = '\x7d' :: rest := by
  rw [procedures_eq, membersFrom_eq_piecesFrom]
  refine ((loop_procedureStep budget).repeatFrom_eq_ok_iff rfl members rest c left).trans ?_
  rw [exists_absorbed_flagged_iff, absorbed_procedures_iff]
  simp [exists_le_each_iff, empty, names, Bracket.closing]

theorem decides_reader (budget : Nat) (d : Document) :
    Decides (Context.reader budget) d.compact fun c ↦ ∃ n ≤ budget, c.Spelled d n := by
  apply decides_demanded
  · intro hbrace
    obtain ⟨members, rfl⟩ := Document.initial_eq_brace_iff.mp hbrace
    apply (decides_enclosed_object (procedures_eq_ok_iff members) budget).iff
    intro c
    constructor
    · rintro ⟨left, rfl, hdistinct, entries, ⟨n, hn, hentries⟩, hperm⟩
      exact ⟨n + 1, Nat.succ_le_succ hn, .object hdistinct hentries hperm⟩
    · rintro ⟨_, hn, h⟩
      cases h with
      | @object _ entries _ n hdistinct hentries hperm =>
        obtain ⟨left, rfl⟩ := Nat.exists_eq_add_of_le' (Nat.le_trans (Nat.le_add_left 1 n) hn)
        exact ⟨left, rfl, hdistinct, entries, ⟨n, Nat.le_of_succ_le_succ hn, hentries⟩, hperm⟩
  · rintro c ⟨_, -, ⟨⟩⟩
    rfl

end Context

namespace Program

/-! ## The parts of a program -/

/-- How a program reads a member that it knows. -/
def partMember (budget : Nat) (key : String) (draft : Draft) : Option (Reader Draft) :=
  match key with
  | "name" => some do
    let name ← once key draft.name Identifier.reader
    return { draft with name := some name }
  | "context" => some do
    let context ← once key draft.context (Context.reader budget)
    return { draft with context := some context }
  | "body" => some do
    let body ← once key draft.body (Statement.reader budget)
    return { draft with body := some body }
  | _ => none

/-- The parts of a program that has a name; a body that is missing counts as the empty tree, which
is no statement. -/
def completed (draft : Draft) : Reader Parts := do
  let name ← required "name" draft.name
  let body ←
    match draft.body with
    | some body => pure body
    | none => vetted ((Statement.ofTree .empty).mapError .tree)
  return ⟨name, draft.context.getD .empty, body⟩

theorem namedParts_eq (budget : Nat) :
    namedParts budget = members {} (partMember budget) >>= completed := rfl

/-- A program may lack its context, which is then empty, but not its name or its body. -/
theorem completed_eq_ok_iff {draft : Draft} {parts : Parts} {rest left : List Char} :
    completed draft rest = .ok (parts, left) ↔
      (draft.name = some parts.name ∧ draft.context.getD .empty = parts.context ∧
        draft.body = some parts.body) ∧ left = rest := by
  obtain ⟨name, context, body⟩ := draft
  simp only [completed, bind_eq_ok_iff, required_eq_ok_iff]
  cases body with
  | none =>
    simp only [bind_eq_ok_iff, vetted_eq_ok_iff, mapError_eq_ok_iff, Statement.ofTree_eq_ok_iff,
      Statement.not_wellShaped_empty]
    simp
  | some body =>
    simp only [bind_eq_ok_iff, pure_eq_ok_iff]
    constructor
    · rintro ⟨_, _, ⟨rfl, rfl⟩, _, _, ⟨rfl, rfl⟩, rfl, rfl⟩
      exact ⟨⟨rfl, rfl, rfl⟩, rfl⟩
    · rintro ⟨⟨rfl, hcontext, hbody⟩, rfl⟩
      refine ⟨_, _, ⟨rfl, rfl⟩, _, _, ⟨Option.some.inj hbody, rfl⟩, ?_, rfl⟩
      rw [hcontext]

def PartAbsorbs (budget : Nat) (member : String × Document) (draft next : Draft) : Prop :=
  match member.1 with
  | "name" => ∃ name : Identifier, (draft.name = none ∧ member.2 = .string name.text) ∧
      { draft with name := some name } = next
  | "context" => ∃ c : Context, (draft.context = none ∧ ∃ n ≤ budget, c.Spelled member.2 n) ∧
      { draft with context := some c } = next
  | "body" => ∃ body : Statement, (draft.body = none ∧ ∃ n ≤ budget, body.Spelled member.2 n) ∧
      { draft with body := some body } = next
  | _ => next = draft

/-- Each of the three keys fills its own field, once, and all other keys fill none. -/
theorem fills_partMember (budget : Nat) : Fills (partMember budget) (PartAbsorbs budget) where
  known key draft read hread d := by
    unfold partMember at hread
    split at hread
    · cases hread
      exact (decides_once (Identifier.decides_reader d)).map _
    · cases hread
      exact (decides_once (Context.decides_reader budget d)).map _
    · cases hread
      exact (decides_once (Statement.decides_reader budget d)).map _
    · cases hread
  unknown key draft hread d next := by
    unfold partMember at hread
    split at hread
    · cases hread
    · cases hread
    · cases hread
    · simp [PartAbsorbs]

/-- The fields can be looked at one by one, by induction over the members. -/
theorem absorbed_parts_iff {budget : Nat} {members : List (String × Document)}
    {draft result : Draft} :
    Absorbed (PartAbsorbs budget) members draft result ↔
      Filled (fun d (name : Identifier) ↦ d = .string name.text) (valuesAt "name" members)
        draft.name result.name ∧
      Filled (fun d (c : Context) ↦ ∃ n ≤ budget, c.Spelled d n) (valuesAt "context" members)
        draft.context result.context ∧
      Filled (fun d (body : Statement) ↦ ∃ n ≤ budget, body.Spelled d n) (valuesAt "body" members)
        draft.body result.body := by
  induction members generalizing draft with
  | nil =>
    obtain ⟨name, context, body⟩ := draft
    obtain ⟨name', context', body'⟩ := result
    simp [Absorbed, Filled, valuesAt]
  | cons member members ih =>
    obtain ⟨key, d⟩ := member
    simp only [Absorbed, ih]
    by_cases hname : key = "name"
    · subst hname
      rw [valuesAt_cons_self, valuesAt_cons_of_ne (by decide), valuesAt_cons_of_ne (by decide)]
      constructor
      · rintro ⟨_, ⟨name, ⟨hnone, h⟩, rfl⟩, hnames, hothers⟩
        exact ⟨⟨hnone, name, h, hnames⟩, hothers⟩
      · rintro ⟨⟨hnone, name, h, hnames⟩, hothers⟩
        exact ⟨_, ⟨name, ⟨hnone, h⟩, rfl⟩, hnames, hothers⟩
    · by_cases hcontext : key = "context"
      · subst hcontext
        rw [valuesAt_cons_self, valuesAt_cons_of_ne (by decide), valuesAt_cons_of_ne (by decide)]
        constructor
        · rintro ⟨_, ⟨c, ⟨hnone, h⟩, rfl⟩, hnames, hcontexts, hbodies⟩
          exact ⟨hnames, ⟨hnone, c, h, hcontexts⟩, hbodies⟩
        · rintro ⟨hnames, ⟨hnone, c, h, hcontexts⟩, hbodies⟩
          exact ⟨_, ⟨c, ⟨hnone, h⟩, rfl⟩, hnames, hcontexts, hbodies⟩
      · by_cases hbody : key = "body"
        · subst hbody
          rw [valuesAt_cons_self, valuesAt_cons_of_ne (by decide), valuesAt_cons_of_ne (by decide)]
          constructor
          · rintro ⟨_, ⟨body, ⟨hnone, h⟩, rfl⟩, hnames, hcontexts, hbodies⟩
            exact ⟨hnames, hcontexts, hnone, body, h, hbodies⟩
          · rintro ⟨hnames, hcontexts, hnone, body, h, hbodies⟩
            exact ⟨_, ⟨body, ⟨hnone, h⟩, rfl⟩, hnames, hcontexts, hbodies⟩
        · rw [valuesAt_cons_of_ne hname, valuesAt_cons_of_ne hcontext, valuesAt_cons_of_ne hbody]
          simp [PartAbsorbs]

/-- What the documents of the parts stand for. -/
structure PartsMean (budget : Nat) (name : Document) (context : Option Document) (body : Document)
    (parts : Parts) : Prop where
  name : name = .string parts.name.text
  context : ∃ n ≤ budget, parts.context.SpelledIfGiven context n
  body : ∃ n ≤ budget, parts.body.Spelled body n

/-- A context that is missing counts as an empty one. -/
theorem exists_filled_context_iff {budget : Nat} {ds : List Document} {c : Context} :
    (∃ found, Filled (fun d (c : Context) ↦ ∃ n ≤ budget, c.Spelled d n) ds none found ∧
      found.getD .empty = c) ↔
      ∃ context : Option Document, ds = context.toList ∧
        ∃ n ≤ budget, c.SpelledIfGiven context n := by
  constructor
  · rintro ⟨found, hfilled, rfl⟩
    cases found with
    | none =>
      obtain rfl := filled_none_none_iff.mp hfilled
      exact ⟨none, rfl, 0, Nat.zero_le budget, .missing⟩
    | some c =>
      obtain ⟨d, rfl, n, hn, h⟩ := filled_none_some_iff.mp hfilled
      exact ⟨some d, rfl, n, hn, .given h⟩
  · rintro ⟨context, rfl, n, hn, h⟩
    cases h with
    | missing => exact ⟨none, filled_none_none_iff.mpr rfl, rfl⟩
    | @given d _ _ h => exact ⟨some c, filled_none_some_iff.mpr ⟨d, rfl, n, hn, h⟩, rfl⟩

theorem namedParts_eq_ok_iff (members : List (String × Document)) (budget : Nat)
    (rest : List Char) (parts : Parts) (left : List Char) :
    namedParts budget (Document.membersFrom true members ++ '\x7d' :: rest) = .ok (parts, left) ↔
      (∃ name context body, valuesAt "name" members = [name] ∧
        valuesAt "context" members = context.toList ∧ valuesAt "body" members = [body] ∧
        PartsMean budget name context body parts) ∧ left = '\x7d' :: rest := by
  rw [namedParts_eq]
  simp only [bind_eq_ok_iff, members_eq_ok_iff (fills_partMember budget), absorbed_parts_iff,
    completed_eq_ok_iff]
  constructor
  · rintro ⟨⟨_, found, _⟩, _, ⟨⟨hname, hcontext, hbody⟩, rfl⟩, ⟨rfl, hfound, rfl⟩, rfl⟩
    obtain ⟨name, hnames, hname⟩ := filled_none_some_iff.mp hname
    obtain ⟨context, hcontexts, hcontext⟩ := exists_filled_context_iff.mp ⟨found, hcontext, hfound⟩
    obtain ⟨body, hbodies, hbody⟩ := filled_none_some_iff.mp hbody
    exact ⟨⟨name, context, body, hnames, hcontexts, hbodies, hname, hcontext, hbody⟩, rfl⟩
  · rintro ⟨⟨name, context, body, hnames, hcontexts, hbodies, hname, hcontext, hbody⟩, rfl⟩
    obtain ⟨found, hfilled, hfound⟩ :=
      exists_filled_context_iff.mpr ⟨context, hcontexts, hcontext⟩
    exact ⟨⟨some parts.name, found, some parts.body⟩, _,
      ⟨⟨filled_none_some_iff.mpr ⟨name, hnames, hname⟩, hfilled,
        filled_none_some_iff.mpr ⟨body, hbodies, hbody⟩⟩, rfl⟩, ⟨rfl, hfound, rfl⟩, rfl⟩

/-- A list has its three items in order, and it may have more that are not looked at here. -/
theorem positionalParts_eq_ok_iff (items : List Document) (budget : Nat) (rest : List Char)
    (parts : Parts) (left : List Char) :
    positionalParts budget (Document.itemsFrom true items ++ ']' :: rest) = .ok (parts, left) ↔
      ∃ more, (∃ name context body, items = name :: context :: body :: more ∧
        PartsMean budget name (some context) body parts) ∧
          left = Document.itemsFrom false more ++ ']' :: rest := by
  simp only [positionalParts, bind_eq_ok_iff]
  constructor
  · rintro ⟨name, _, hfirst, more, _, hmore, hfinish⟩
    obtain ⟨nameDocument, others, rfl, hname, rfl⟩ :=
      (place_eq_ok_iff Identifier.decides_reader).mp hfirst
    rw [anotherItem_itemsFrom] at hmore
    cases others with
    | nil =>
      -- Without a context there is no body either.
      obtain ⟨rfl, rfl⟩ := Prod.mk.inj (Except.ok.inj hmore)
      rw [if_neg (by decide), bind_apply, pure_apply] at hfinish
      obtain ⟨body, left, hthird, -⟩ := bind_eq_ok_iff.mp hfinish
      have hnone : place "RawProgram" 3 2 (Statement.reader budget)
          (Document.itemsFrom false [] ++ ']' :: rest) = .ok (body, left) := hthird
      obtain ⟨_, _, hitems, -⟩ := (place_eq_ok_iff (Statement.decides_reader budget)).mp hnone
      cases hitems
    | cons context others =>
      obtain ⟨rfl, rfl⟩ := Prod.mk.inj (Except.ok.inj hmore)
      simp only [if_true, bind_eq_ok_iff, pure_eq_ok_iff] at hfinish
      obtain ⟨c, _, hsecond, body, _, hthird, rfl, rfl⟩ := hfinish
      obtain ⟨⟨n, hn, hcontext⟩, rfl⟩ :=
        (Context.decides_reader budget context _ (follows_itemsFrom others rest) c _).mp hsecond
      obtain ⟨bodyDocument, more, rfl, hbody, rfl⟩ :=
        (place_eq_ok_iff (Statement.decides_reader budget)).mp hthird
      exact ⟨more, ⟨_, _, _, rfl, hname, ⟨n, hn, .given hcontext⟩, hbody⟩, rfl⟩
  · rintro ⟨more, ⟨nameDocument, context, body, rfl, hname, ⟨n, hn, hcontext⟩, hbody⟩, rfl⟩
    cases hcontext with
    | given hcontext =>
      have hread := (Context.decides_reader budget context _
        (follows_itemsFrom (body :: more) rest) parts.context _).mpr ⟨⟨n, hn, hcontext⟩, rfl⟩
      refine ⟨parts.name, _, (place_eq_ok_iff Identifier.decides_reader).mpr
        ⟨nameDocument, _, rfl, hname, rfl⟩, true, _, anotherItem_itemsFrom false _ rest, ?_⟩
      simp only [if_true, bind_eq_ok_iff, pure_eq_ok_iff]
      exact ⟨parts.context, _, hread, parts.body, _,
        (place_eq_ok_iff (Statement.decides_reader budget)).mpr ⟨body, more, rfl, hbody, rfl⟩,
        rfl, rfl⟩

theorem decides_partsReader (budget : Nat) (d : Document) :
    Decides (partsReader budget) d.compact fun parts ↦
      ∃ left name context body, budget = left + 1 ∧ Fields d name context body ∧
        PartsMean left name context body parts := by
  have hrecord : Decides (partsReader budget) d.compact _ :=
    decides_record namedParts_eq_ok_iff positionalParts_eq_ok_iff d budget
  apply hrecord.iff
  intro parts
  constructor
  · rintro ⟨left, rfl, ⟨members, rfl, _, _, _, hnames, hcontexts, hbodies, h⟩ |
      ⟨items, rfl, _, _, _, rfl, h⟩⟩
    · exact ⟨left, _, _, _, rfl, .named hnames hcontexts hbodies, h⟩
    · exact ⟨left, _, _, _, rfl, .positional _ _ _, h⟩
  · rintro ⟨left, _, _, _, rfl, hfields, h⟩
    cases hfields with
    | named hnames hcontexts hbodies =>
      exact ⟨left, rfl, .inl ⟨_, rfl, _, _, _, hnames, hcontexts, hbodies, h⟩⟩
    | positional => exact ⟨left, rfl, .inr ⟨_, rfl, _, _, _, rfl, h⟩⟩

/-- The check of the whole program comes behind its parts. -/
theorem decides_reader (budget : Nat) (d : Document) :
    Decides (Program.reader budget) d.compact fun p ↦ ∃ n ≤ budget, p.Spelled d n := by
  have hvetted := (decides_partsReader budget d).vetted fun parts ↦
    (ofParts parts.name parts.context parts.body).mapError .program
  apply hvetted.iff
  intro p
  simp only [mapError_eq_ok_iff, ofParts_eq_ok_iff]
  constructor
  · rintro ⟨parts, ⟨left, _, _, _, rfl, hfields, hname, ⟨m, hm, hcontext⟩, ⟨n, hn, hbody⟩⟩,
      hprocedures, hblock, rfl⟩
    exact ⟨max m n + 1, by omega, .parts hfields hname hcontext hbody
      (fun entry hentry ↦ (hprocedures entry hentry).1)
      (fun entry hentry ↦ (hprocedures entry hentry).2) hblock⟩
  · rintro ⟨_, hdepth, h⟩
    cases h with
    | @parts _ _ _ _ m n hfields hname hcontext hbody hprimitive hblocks hblock =>
      obtain ⟨left, rfl⟩ := Nat.exists_eq_add_of_le' (Nat.le_trans (Nat.le_add_left 1 _) hdepth)
      exact ⟨⟨p.name, p.context, p.body⟩, ⟨left, _, _, _, rfl, hfields, hname,
        ⟨m, by omega, hcontext⟩, ⟨n, by omega, hbody⟩⟩,
        fun entry hentry ↦ ⟨hprimitive entry hentry, hblocks entry hentry⟩, hblock, rfl⟩

end Program

/-- Nothing follows the text of a whole document. -/
theorem Json.decode_toText_eq_ok_iff {α : Type} {reader : Nat → Reader α} {d : Document}
    {means : α → Prop} (h : Decides (reader nestingLimit) d.compact means) (a : α) :
    Json.decode reader d.toText = .ok a ↔ means a := by
  have hread := h [] follows_nil
  rw [List.append_nil] at hread
  rw [Json.decode, Document.toList_toText, decodeChars]
  constructor
  · intro hdecode
    cases hrun : reader nestingLimit d.compact with
    | error failure =>
      rw [hrun] at hdecode
      cases hdecode
    | ok pair =>
      obtain ⟨b, left⟩ := pair
      obtain ⟨hb, rfl⟩ := (hread b left).mp hrun
      rw [hrun] at hdecode
      obtain rfl := Except.ok.inj hdecode
      exact hb
  · intro ha
    rw [(hread a []).mpr ⟨ha, rfl⟩]
    rfl

/-- The compact text of a document is decoded to a program if and only if the document spells that
program, with at most as many brackets inside each other as are allowed. -/
theorem Program.decode_accepts_spelled_documents (d : Document) :
    ((∃ p, Program.decode d.toText = .ok p) ↔
      ∃ p depth, Program.Spelled d p depth ∧ depth ≤ nestingLimit) ∧
    ∀ p, Program.decode d.toText = .ok p ↔
      ∃ depth, Program.Spelled d p depth ∧ depth ≤ nestingLimit := by
  have hdecode : ∀ p, Program.decode d.toText = .ok p ↔
      ∃ depth, Program.Spelled d p depth ∧ depth ≤ nestingLimit := by
    intro p
    rw [Program.decode, decode_toText_eq_ok_iff (Program.decides_reader nestingLimit d)]
    exact exists_congr fun depth ↦ and_comm
  exact ⟨exists_congr hdecode, hdecode⟩

end BLTree

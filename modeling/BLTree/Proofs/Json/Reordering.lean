import BLTree.Proofs.Json.Budgets
import BLTree.Proofs.Json.ProgramConformance
import BLTree.Proofs.Json.TwoTexts
import BLTree.Proofs.Offenders
import Mathlib.Data.List.Perm.Basic

/-!
# The order of the procedures in a program document

A program document is read twice, with the members of its context in two orders. Up to the context
both texts are the same, and a failure there leaves both before their different ends. The context is
read to the same result in both orders, because it is a sorted list of its entries, and from then on
the texts are the same again. Only the depth of a procedure can make the context itself fail: such a
failure is placed at the bracket that is one too many, so it has the same cause in both orders, but
not the same place. Both texts are one line with the same characters, so that equally many bytes
before a failure make the same report.
-/

namespace BLTree

open Json Json.Reader

theorem Identifier.determined_reader (d : Document) :
    Determined Follows Identifier.reader d.compact :=
  (determined_stringValue d).bind fun _ _ ↦ determined_vetted _ _

theorem Condition.determined_reader (d : Document) (budget : Nat) :
    Determined Follows (Condition.reader budget) d.compact := by
  refine determined_variant ?_ ?_ d budget
  · intro name payload hname budget d
    obtain ⟨c, -, rfl⟩ := (lookup_spelling_iff lookup_spelling name payload).mp hname
    exact ⟨_, (decides_nullValue d).map _⟩
  · intro name payload hname budget d
    obtain ⟨c, -, rfl⟩ := (lookup_spelling_iff lookup_spelling name payload).mp hname
    exact (determined_nullValue d).map _

namespace Label

/-- What a label carries is a condition or a name, or nothing. -/
theorem determined_payload (k : Kind) (budget : Nat) (d : Document) :
    Determined Follows ((payload k).value budget) d.compact := by
  cases k with
  | block => exact (determined_nullValue d).map _
  | ifThen | ifElse | whileDo => exact (Condition.determined_reader d budget).map _
  | call => exact (Identifier.determined_reader d).map _

theorem determined_reader (d : Document) (budget : Nat) :
    Determined Follows (Label.reader budget) d.compact := by
  refine determined_variant ?_ ?_ d budget
  · intro name payload hname budget d
    obtain ⟨k, -, rfl⟩ := (lookup_spelling_iff lookup_payload name payload).mp hname
    exact ⟨_, decides_payload k budget d⟩
  · intro name payload hname budget d
    obtain ⟨k, -, rfl⟩ := (lookup_spelling_iff lookup_payload name payload).mp hname
    exact determined_payload k budget d

end Label

namespace Tree

variable {L : Type} {label : Nat → Reader L} {child : Reader (Tree L)}
  {labelMeans : Nat → Document → L → Prop} {childMeans : Document → Tree L → Prop}

theorem determined_childrenReader
    (hmeans : ∀ d : Document, Decides child d.compact (childMeans d))
    (hchild : ∀ d : Document, Determined Follows child d.compact) (budget : Nat) (d : Document) :
    Determined Follows (childrenReader child budget) d.compact := by
  apply determined_demanded
  intro hbracket
  obtain ⟨items, rfl⟩ := Document.initial_eq_bracket_iff.mp hbracket
  exact determined_enclosed_list (fun _ ↦ determined_items hmeans hchild items) budget

/-- A field that is missing is told at the closing brace. -/
theorem determined_namedNode
    (hlabelMeans : ∀ budget (d : Document), Decides (label budget) d.compact (labelMeans budget d))
    (hmeans : ∀ d : Document, Decides child d.compact (childMeans d))
    (hlabel : ∀ budget (d : Document), Determined Follows (label budget) d.compact)
    (hchild : ∀ d : Document, Determined Follows child d.compact)
    (members : List (String × Document)) (budget : Nat) :
    Determined (ClosedBy .object) (namedNode label child budget)
      (Document.membersFrom true members) := by
  rw [namedNode_eq]
  refine (determined_members (fills_nodeMember hlabelMeans hmeans budget) ?_ _ members).bind ?_
  · intro key draft read hread d
    unfold nodeMember at hread
    split at hread
    · cases hread
      exact (determined_once (hlabel budget d)).map _
    · cases hread
      exact (determined_once (determined_childrenReader hmeans hchild budget d)).map _
    · cases hread
  · intro draft left
    apply (determined_required _ _ _).bind
    intro l left
    exact (determined_required _ _ _).map _

theorem determined_positionalNode
    (hlabelMeans : ∀ budget (d : Document), Decides (label budget) d.compact (labelMeans budget d))
    (hmeans : ∀ d : Document, Decides child d.compact (childMeans d))
    (hlabel : ∀ budget (d : Document), Determined Follows (label budget) d.compact)
    (hchild : ∀ d : Document, Determined Follows child d.compact) (items : List Document)
    (budget : Nat) :
    Determined (ClosedBy .list) (positionalNode label child budget)
      (Document.itemsFrom true items) := by
  refine determined_place (hlabelMeans budget) (hlabel budget) ?_ items
  intro l ds
  refine determined_place (decides_childrenReader hmeans budget)
    (determined_childrenReader hmeans hchild budget) ?_ ds
  intro children ds
  exact determined_pure _ _

/-- Children are read by a reader that is indifferent already. -/
theorem determined_readerWith
    (hlabelMeans : ∀ budget (d : Document), Decides (label budget) d.compact (labelMeans budget d))
    (hmeans : ∀ d : Document, Decides child d.compact (childMeans d))
    (hlabel : ∀ budget (d : Document), Determined Follows (label budget) d.compact)
    (hchild : ∀ d : Document, Determined Follows child d.compact) (budget : Nat) (d : Document) :
    Determined Follows (readerWith label child budget) d.compact := by
  apply determined_bind_ok fun rest _ ↦ upcoming_compact d rest
  split
  · rename_i hnull
    obtain rfl := Document.initial_eq_n_iff.mp (Option.some.inj hnull)
    exact (takesBack_word "null".toList).determined.map _
  · exact determined_record (determined_namedNode hlabelMeans hmeans hlabel hchild)
      (determined_positionalNode hlabelMeans hmeans hlabel hchild) d budget

/-- By recursion on the budget in steps of two, as trees are read. -/
theorem determined_reader (budget : Nat) (d : Document) :
    Determined Follows (Tree.reader Label.reader budget) d.compact := by
  have hmeans := fun budget d ↦ Label.decides_reader d budget
  have hlabel := fun budget d ↦ Label.determined_reader d budget
  have hnone : ∀ d : Document,
      Decides (failNext (.breach .tooDeep) : Reader (Tree Label)) d.compact fun _ ↦ False :=
    fun d ↦ decides_none nofun
  match budget with
  | 0 => exact determined_readerWith hmeans hnone hlabel (fun _ ↦ determined_failNext _ _) 0 d
  | 1 => exact determined_readerWith hmeans hnone hlabel (fun _ ↦ determined_failNext _ _) 1 d
  | budget + 2 =>
    exact determined_readerWith hmeans (decides_reader budget) hlabel (determined_reader budget)
      (budget + 2) d

end Tree

/-- The shape check reads nothing. -/
theorem Statement.determined_reader (budget : Nat) (d : Document) :
    Determined Follows (Statement.reader budget) d.compact :=
  (Tree.determined_reader budget d).bind fun _ _ ↦ determined_vetted _ _

/-- A name that is no identifier is refused before the body is looked at. -/
theorem Context.determined_procedureStep (budget : Nat) (member : String × Document)
    (state : Bool × Context) :
    Determined Follows (procedureStep budget state) (memberChars state.1 member) := by
  have hkey (rest : List Char) : anotherKey state.1 (memberChars state.1 member ++ rest) =
      .ok (some member.1, (':' :: member.2.compact) ++ rest) := by
    rw [memberChars, List.append_assoc]
    exact anotherKey_string state.1 member.1 _
  apply determined_bind_ok fun rest _ ↦ hkey rest
  dsimp only
  cases readIdentifier member.1 with
  | error fault =>
    exact determined_bind_error ⟨.mismatch (.rejected fault), ':' :: member.2.compact, none⟩
      fun _ _ ↦ rfl
  | ok name =>
    have hcolon (rest : List Char) : colon (':' :: member.2.compact ++ rest) =
        .ok ((), member.2.compact ++ rest) := colon_cons _
    apply determined_bind_ok fun rest _ ↦ pure_apply name _
    apply determined_bind_ok fun rest _ ↦ hcolon rest
    apply (Statement.determined_reader budget member.2).bind
    intro body left
    split
    · exact determined_mismatch _ left
    · exact determined_pure _ left

theorem Context.determined_reader (budget : Nat) (d : Document) :
    Determined Follows (Context.reader budget) d.compact := by
  apply determined_demanded
  intro hbrace
  obtain ⟨members, rfl⟩ := Document.initial_eq_brace_iff.mp hbrace
  refine determined_enclosed_object (fun budget ↦ ?_) budget
  rw [procedures_eq, membersFrom_eq_piecesFrom]
  exact (loop_procedureStep budget).determined
    (fun member _ state ↦ determined_procedureStep budget member state) rfl

namespace Context

/-- A member that is read on its own: its name is an identifier, and its body is a statement with at
most `budget` brackets inside each other. -/
def Decodable (budget : Nat) (member : String × Document) : Prop :=
  ∃ (name : Identifier) (body : Statement), member.1 = name.text ∧
    Statement.reader budget member.2.compact = .ok (body, [])

/-- What can be read on its own is spelled within as many brackets. -/
theorem Decodable.exists_entry {budget : Nat} {member : String × Document}
    (h : Decodable budget member) : ∃ entry, ∃ n ≤ budget, SpelledEntry member entry n := by
  obtain ⟨name, body, hname, hread⟩ := h
  rw [← List.append_nil member.2.compact] at hread
  obtain ⟨⟨n, hn, hbody⟩, -⟩ :=
    (Statement.decides_reader budget member.2 [] follows_nil body []).mp hread
  exact ⟨(name, body), n, hn, hname, hbody⟩

/-- Entries with different names can be sorted into a context. -/
theorem exists_perm {entries : List (Identifier × Statement)}
    (h : (entries.map (·.1.text)).Nodup) : ∃ c : Context, entries.Perm c.entries := by
  induction entries with
  | nil => exact ⟨empty, .refl _⟩
  | cons entry entries ih =>
    obtain ⟨hnew, hdistinct⟩ := List.nodup_cons.mp h
    obtain ⟨c, hc⟩ := ih hdistinct
    have hcontains : c.contains entry.1 = false := by
      rw [contains_eq_false_iff, names, List.map_map]
      intro hmem
      exact hnew ((hc.map _).mem_iff.mpr hmem)
    exact ⟨c.insert entry.1 entry.2, (hc.cons entry).trans (perm_insert hcontains entry.2).symm⟩

variable {members members' : List (String × Document)} {budget : Nat}

/-- Members that can be read one by one make a context, with one more bracket around them. -/
theorem exists_spelled (hdistinct : (members.map (·.1)).Nodup)
    (h : ∀ member ∈ members, Decodable budget member) :
    ∃ c, ∃ n ≤ budget + 1, Spelled (.object members) c n := by
  have hentries : Nonempty (Identifier × Statement) := ⟨(Program.defaultName, .emptyBlock)⟩
  choose! entry hentry using fun member hmember ↦ (h member hmember).exists_entry
  have hnames : (members.map entry).map (·.1.text) = members.map (·.1) := by
    rw [List.map_map]
    apply List.map_congr_left
    intro member hmember
    obtain ⟨n, -, hn⟩ := hentry member hmember
    exact hn.name.symm
  obtain ⟨c, hc⟩ := exists_perm (hnames ▸ hdistinct)
  have heach : List.Forall₂ (fun member entry ↦ ∃ n ≤ budget, SpelledEntry member entry n)
      members (members.map entry) := by
    rw [List.forall₂_map_right_iff, List.forall₂_same]
    exact hentry
  obtain ⟨n, hn, hspelled⟩ := exists_le_each_iff.mpr heach
  exact ⟨c, n + 1, Nat.succ_le_succ hn, .object hdistinct hspelled hc⟩

/-- The members of a context may be given in any order. -/
theorem Spelled.perm {c : Context} {n : Nat} (h : Spelled (.object members) c n)
    (hperm : members.Perm members') : ∃ m ≤ n, Spelled (.object members') c m := by
  cases h with
  | @object _ entries _ n hdistinct hentries horder =>
    have heach := exists_le_each_iff.mp ⟨n, Nat.le_refl n, hentries⟩
    obtain ⟨entries', heach', horder'⟩ := List.perm_comp_forall₂ hperm.symm heach
    obtain ⟨m, hm, hentries'⟩ := exists_le_each_iff.mpr heach'
    have hdistinct' := (hperm.map (·.1)).nodup_iff.mp hdistinct
    exact ⟨m + 1, Nat.succ_le_succ hm, .object hdistinct' hentries' (horder'.trans horder)⟩

/-- A context whose members are readable one by one is read, or too deep. -/
theorem reader_of_decodable (hdistinct : (members.map (·.1)).Nodup) {limit : Nat}
    (h : ∀ member ∈ members, Decodable limit member) (budget : Nat) {rest : List Char}
    (hrest : Follows rest) :
    TooDeep (Context.reader budget ((Document.object members).compact ++ rest)) ∨
      ∃ c, ∃ n ≤ budget, Spelled (.object members) c n := by
  obtain ⟨c, n, hn, hspelled⟩ := exists_spelled hdistinct h
  have hread := (Context.decides_reader (max budget n) (.object members) rest hrest c rest).mpr
    ⟨⟨n, Nat.le_max_right budget n, hspelled⟩, rfl⟩
  rcases Context.tightens_reader budget (max budget n) (Nat.le_max_left budget n)
    ((Document.object members).compact ++ rest) with hdeep | heq
  · exact .inl hdeep
  · obtain ⟨hshallow, -⟩ := (Context.decides_reader budget (.object members) rest hrest c rest).mp
      (heq.trans hread)
    exact .inr ⟨c, hshallow⟩

/-- Two orders of the same members, which have different names and are decodable. -/
structure Reordered (limit : Nat) (members members' : List (String × Document)) : Prop where
  perm : members.Perm members'
  distinct : (members.map (·.1)).Nodup
  decodable : ∀ member ∈ members, Decodable limit member

theorem Reordered.symm {limit : Nat} (h : Reordered limit members members') :
    Reordered limit members' members where
  perm := h.perm.symm
  distinct := (h.perm.map (·.1)).nodup_iff.mp h.distinct
  decodable member hmember := h.decodable member (h.perm.mem_iff.mpr hmember)

/-- Two orders of the members of a context lead to the same context, or both are too deep; the
latter only if one of the members is too deep where it stands. -/
theorem alike_reader {limit : Nat} (h : Reordered limit members members') (budget : Nat)
    {rest : List Char} (hrest : Follows rest) (holds : List Char → Prop) (u v : List Char) :
    Alike (¬ ∀ member ∈ members, Decodable budget member) holds u v
      (Context.reader (budget + 1) ((Document.object members).compact ++ rest))
      (Context.reader (budget + 1) ((Document.object members').compact ++ rest)) := by
  have hread {ms : List (String × Document)} {c : Context} {n : Nat} (hn : n ≤ budget + 1)
      (hspelled : Spelled (.object ms) c n) :
      Context.reader (budget + 1) ((Document.object ms).compact ++ rest) = .ok (c, rest) :=
    (Context.decides_reader _ _ rest hrest c rest).mpr ⟨⟨n, hn, hspelled⟩, rfl⟩
  by_cases hshallow : ∃ c, ∃ n ≤ budget + 1, Spelled (.object members) c n
  · obtain ⟨c, n, hn, hspelled⟩ := hshallow
    obtain ⟨m, hm, hspelled'⟩ := hspelled.perm h.perm
    rw [hread hn hspelled, hread (Nat.le_trans hm hn) hspelled']
    exact .same _
  · have hshallow' : ¬ ∃ c, ∃ n ≤ budget + 1, Spelled (.object members') c n := by
      rintro ⟨c, n, hn, hspelled⟩
      obtain ⟨m, hm, hspelled'⟩ := hspelled.perm h.perm.symm
      exact hshallow ⟨c, m, Nat.le_trans hm hn, hspelled'⟩
    have hdeep := (reader_of_decodable h.distinct h.decodable (budget + 1) hrest).resolve_right
      hshallow
    have hdeep' := (reader_of_decodable h.symm.distinct h.symm.decodable (budget + 1)
      hrest).resolve_right hshallow'
    exact .tooDeep (fun hall ↦ hshallow (exists_spelled h.distinct hall)) hdeep hdeep'

end Context

namespace Json.Reader

variable {γ : Type} {members members' : List (String × Document)}

/-- Only the first piece of all has no comma before it. -/
theorem piecesFrom_append (piece : Bool → γ → List Char) (first : Bool) (xs ys : List γ) :
    piecesFrom piece first (xs ++ ys) =
      piecesFrom piece first xs ++ piecesFrom piece (first && xs.isEmpty) ys := by
  induction xs generalizing first with
  | nil => simp [piecesFrom]
  | cons x xs ih => simp [piecesFrom, ih]

/-- The text of a member up to the members of the object that it holds. -/
def objectOpening (first : Bool) (key : String) : List Char :=
  separator first ++ stringChars key ++ [':', '\x7b']

/-- The members of the inner object stand between its opening and its closing brace. -/
theorem memberChars_object (first : Bool) (key : String) (members : List (String × Document))
    (rest : List Char) :
    memberChars first (key, .object members) ++ rest =
      objectOpening first key ++ (Document.membersFrom true members ++ '\x7d' :: rest) := by
  rw [memberChars, List.append_assoc, List.cons_append, compact_object_append]
  simp [objectOpening]

theorem halts_objectOpening (text : List Char) (first : Bool) (key : String) :
    Halts (text ++ objectOpening first key) :=
  ⟨'\x7b', by simp [objectOpening], by decide, by decide⟩

/-- With a comma before each of them, members can be written one by one. -/
theorem membersFrom_false (members : List (String × Document)) :
    Document.membersFrom false members = members.flatMap (memberChars false) := by
  rw [membersFrom_eq_piecesFrom]
  induction members with
  | nil => rfl
  | cons member members ih => rw [piecesFrom, List.flatMap_cons, ih]

/-- The text of an object has the same characters whatever the order of its members is. -/
theorem perm_membersFrom (h : members.Perm members') :
    (Document.membersFrom true members).Perm (Document.membersFrom true members') := by
  have hcomma (member : String × Document) (others : List (String × Document)) :
      ',' :: Document.membersFrom true (member :: others) =
        Document.membersFrom false (member :: others) := by
    simp [Document.membersFrom, separator]
  cases members with
  | nil => rw [h.nil_eq]
  | cons member others =>
    cases members' with
    | nil => exact absurd h.symm (List.not_perm_nil_cons _ _)
    | cons member' others' =>
      apply List.Perm.cons_inv (a := ',')
      rw [hcomma, hcomma, membersFrom_false, membersFrom_false]
      exact h.flatMap_right _

end Json.Reader

/-- A statement that is not too high can be read back under any name. -/
theorem Statement.Sound.decodable {s : Statement} (hs : s.Sound) (name : Identifier) {budget : Nat}
    (h : 2 * s.tree.height ≤ budget) : Context.Decodable budget (name.text, s.document) := by
  have hread := hs.takesBack_reader h []
  rw [List.append_nil] at hread
  exact ⟨name, s, rfl, hread⟩

theorem Context.exists_absorbed {budget : Nat} {members : List (String × Document)}
    (hdistinct : (members.map (·.1)).Nodup) (h : ∀ member ∈ members, Decodable budget member) :
    ∃ c, Absorbed (ProcedureAbsorbs budget) members empty c := by
  obtain ⟨c, n, hn, hspelled⟩ := exists_spelled hdistinct h
  cases hspelled with
  | object _ hentries hperm =>
    have heach := exists_le_each_iff.mp ⟨_, Nat.le_of_succ_le_succ hn, hentries⟩
    refine ⟨c, absorbed_procedures_iff.mpr ⟨?_, _, heach, ?_⟩⟩
    · rwa [empty, names, List.map_nil, List.map_nil, List.append_nil]
    · rwa [empty, List.append_nil]

/-- A procedure that is too deep ends the context where it stands: what is left is the end of its
own text, with all that comes behind it. -/
theorem Context.reader_refused {budget : Nat} (front : List (String × Document))
    (hdistinct : (front.map (·.1)).Nodup) (hfront : ∀ member ∈ front, Decodable budget member)
    {d : Document} {left : List Char}
    (hstop : ∀ rest, Statement.reader budget (d.compact ++ rest) =
      .error ⟨.breach .tooDeep, left ++ rest, some 1⟩)
    (name : Identifier) (back : List (String × Document)) (rest : List Char) :
    Context.reader (budget + 1)
        ((Document.object (front ++ (name.text, d) :: back)).compact ++ rest) =
      .error ⟨.breach .tooDeep, left ++ (Document.membersFrom false back ++ '\x7d' :: rest),
        some 1⟩ := by
  have loop := loop_procedureStep budget
  obtain ⟨c, hc⟩ := exists_absorbed hdistinct hfront
  obtain ⟨⟨first, c⟩, habsorbed, rfl⟩ := (@exists_absorbed_flagged_iff _ _ _ front true _ _).mpr hc
  have hfirst : first = front.isEmpty := (loop.repeatFor_absorbed habsorbed).1
  have hstep : procedureStep budget (first, c) (memberChars front.isEmpty (name.text, d) ++
      (Document.membersFrom false back ++ '\x7d' :: rest)) =
        .error ⟨.breach .tooDeep, left ++ (Document.membersFrom false back ++ '\x7d' :: rest),
          some 1⟩ := by
    rw [hfirst, procedureStep_member]
    exact bind_of_error (hstop _) _
  have hfollows (hne : front ≠ []) : Follows (memberChars front.isEmpty (name.text, d) ++
      (Document.membersFrom false back ++ '\x7d' :: rest)) := by
    rw [List.isEmpty_eq_false_iff.mpr hne]
    exact follows_cons (.inl rfl) _
  rw [compact_object_append, Context.reader, bind_of_ok (demand_cons (by decide) _)]
  refine enclosed_of_error ?_ '\x7b'
  rw [procedures_eq, membersFrom_eq_piecesFrom, piecesFrom_append, List.append_assoc, piecesFrom,
    List.append_assoc, Bool.true_and, ← membersFrom_eq_piecesFrom false back]
  exact loop.repeatFrom_of_error rfl habsorbed hfollows hstep

/-! ## Parts of programs -/

namespace Program

variable {members members' : List (String × Document)} {limit : Nat}

theorem determined_partMember (budget : Nat) (key : String) (draft : Draft) (read : Reader Draft)
    (hread : partMember budget key draft = some read) (d : Document) :
    Determined Follows read (':' :: d.compact) := by
  unfold partMember at hread
  split at hread
  · cases hread
    exact (determined_once (Identifier.determined_reader d)).map _
  · cases hread
    exact (determined_once (Context.determined_reader budget d)).map _
  · cases hread
    exact (determined_once (Statement.determined_reader budget d)).map _
  · cases hread

/-- A context that comes again is refused before its members are looked at, and else its order does
not matter. -/
theorem alike_contextMember (h : Context.Reordered limit members members') (budget : Nat)
    (state : Bool × Draft) {rest : List Char} (hrest : Follows rest) :
    Alike (¬ ∀ member ∈ members, Context.Decodable budget member) Halts
      (Document.membersFrom true members ++ '\x7d' :: rest)
      (Document.membersFrom true members' ++ '\x7d' :: rest)
      (memberStep (partMember (budget + 1)) state
        (memberChars state.1 ("context", .object members) ++ rest))
      (memberStep (partMember (budget + 1)) state
        (memberChars state.1 ("context", .object members') ++ rest)) := by
  obtain ⟨first, draft⟩ := state
  have hstep (ms : List (String × Document)) :
      memberStep (partMember (budget + 1)) (first, draft)
          (memberChars first ("context", .object ms) ++ rest) =
        ((once "context" draft.context (Context.reader (budget + 1)) >>= fun c ↦
          pure { draft with context := some c }) >>= fun next ↦ pure (.inl (false, next)))
          (':' :: ((Document.object ms).compact ++ rest)) := by
    rw [memberChars, List.append_assoc]
    exact memberStep_string rfl first _
  rw [hstep, hstep]
  apply Alike.bind
  apply Alike.bind
  cases draft.context with
  | some c =>
    have htwice (ms : List (String × Document)) :
        once "context" (some c) (Context.reader (budget + 1))
          (':' :: ((Document.object ms).compact ++ rest)) =
        followedBy (Document.membersFrom true ms ++ '\x7d' :: rest)
          (.error ⟨.mismatch (.fieldTwice "context"), [':', '\x7b'], none⟩) := by
      rw [compact_object_append]
      rfl
    rw [htwice, htwice]
    exact .before _ ⟨':', by simp, by decide, by decide⟩
  | none =>
    rw [once_none, once_none]
    exact Context.alike_reader h budget hrest _ _ _

/-- Members before the context are read alike, and from the context on there is nothing to compare.
-/
theorem alike_namedParts (h : Context.Reordered limit members members') (budget : Nat)
    (front : List (String × Document)) {rest : List Char} (hrest : Follows rest) :
    Alike (¬ ∀ member ∈ members, Context.Decodable budget member) Halts
      (Document.membersFrom true members ++ '\x7d' :: rest)
      (Document.membersFrom true members' ++ '\x7d' :: rest)
      (namedParts (budget + 1) (Document.membersFrom true front ++
        (memberChars front.isEmpty ("context", .object members) ++ rest)))
      (namedParts (budget + 1) (Document.membersFrom true front ++
        (memberChars front.isEmpty ("context", .object members') ++ rest))) := by
  rw [namedParts_eq]
  apply Alike.bind
  rw [members_eq, membersFrom_eq_piecesFrom true front]
  have hlength : (memberChars front.isEmpty ("context", .object members) ++ rest).length =
      (memberChars front.isEmpty ("context", .object members') ++ rest).length := by
    rw [memberChars_object, memberChars_object]
    exact (((perm_membersFrom h.perm).append_right _).append_left _).length_eq
  have hfollows (ms : List (String × Document)) (hfront : front ≠ []) :
      Follows (memberChars front.isEmpty ("context", .object ms) ++ rest) := by
    rw [List.isEmpty_eq_false_iff.mpr hfront]
    exact follows_cons (.inl rfl) _
  refine (loop_memberStep (fills_partMember (budget + 1))).alike ?_ (true, {}) rfl
    hlength (hfollows members) (hfollows members') ?_ ?_
  · intro entry _ state
    exact determined_memberStep (determined_partMember (budget + 1)) entry state
  · intro failure
    rw [memberChars_object, memberChars_object, followedBy_append (objectOpening _ _),
      followedBy_append (objectOpening _ _)]
    exact .before { failure with rest := failure.rest ++ objectOpening front.isEmpty "context" }
      (halts_objectOpening _ _ _)
  · intro state hstate
    rw [← hstate]
    exact alike_contextMember h budget state hrest

/-- A name that is refused is told before the context, where both texts are still the same. -/
theorem alike_positionalParts (h : Context.Reordered limit members members') (budget : Nat)
    (name : Document) {rest : List Char} (hrest : Follows rest) :
    Alike (¬ ∀ member ∈ members, Context.Decodable budget member) Halts
      (Document.membersFrom true members ++ '\x7d' :: rest)
      (Document.membersFrom true members' ++ '\x7d' :: rest)
      (positionalParts (budget + 1)
        (name.compact ++ ',' :: ((Document.object members).compact ++ rest)))
      (positionalParts (budget + 1)
        (name.compact ++ ',' :: ((Document.object members').compact ++ rest))) := by
  have hplace (text : List Char) : place "RawProgram" 3 0 Identifier.reader (name.compact ++ text) =
      Identifier.reader (name.compact ++ text) :=
    place_value _ _ 0 _ (name.startsValue_compact.append text)
  have hfollows (text : List Char) : Follows (',' :: text) := follows_cons (.inl rfl) text
  rcases (Identifier.determined_reader name).whole (Identifier.decides_reader name) with
    ⟨a, -, hread⟩ | ⟨failure, hfailure⟩
  · have hname (ms : List (String × Document)) :
        positionalParts (budget + 1)
          (name.compact ++ ',' :: ((Document.object ms).compact ++ rest)) =
        (Context.reader (budget + 1) >>= fun context ↦
          place "RawProgram" 3 2 (Statement.reader (budget + 1)) >>= fun body ↦
            pure ⟨a, context, body⟩) ((Document.object ms).compact ++ rest) := by
      have hmore : anotherItem false (',' :: ((Document.object ms).compact ++ rest)) =
          .ok (true, (Document.object ms).compact ++ rest) :=
        anotherItem_value false ((Document.object ms).startsValue_compact.append rest)
      rw [positionalParts, bind_apply, hplace, hread _ (hfollows _)]
      dsimp only
      rw [bind_apply, hmore]
      rfl
    rw [hname, hname]
    exact (Context.alike_reader h budget hrest _ _ _).bind _
  · have hname (ms : List (String × Document)) :
        positionalParts (budget + 1)
          (name.compact ++ ',' :: ((Document.object ms).compact ++ rest)) =
        followedBy (Document.membersFrom true ms ++ '\x7d' :: rest)
          (.error { failure with rest := failure.rest ++ [',', '\x7b'] }) := by
      rw [positionalParts, bind_apply, hplace, hfailure _ (hfollows _), compact_object_append]
      simp [followedBy]
    rw [hname, hname]
    exact .before _ ⟨'\x7b', by simp, by decide, by decide⟩

/-- A program document with a place for the members of its context. -/
inductive Frame where
  | named (front back : List (String × Document))
  | listed (name : Document) (others : List Document)

namespace Frame

def document : Frame → List (String × Document) → Document
  | named front back, members => .object (front ++ ("context", .object members) :: back)
  | listed name others, members => .array (name :: .object members :: others)

/-- The text before the members of the context. -/
def before : Frame → List Char
  | named front _ =>
    '\x7b' :: (Document.membersFrom true front ++ objectOpening front.isEmpty "context")
  | listed name _ => '[' :: (name.compact ++ [',', '\x7b'])

/-- The text behind the context. -/
def behind : Frame → List Char
  | named _ back => Document.membersFrom false back ++ ['\x7d']
  | listed _ others => Document.itemsFrom false others ++ [']']

theorem follows_behind (frame : Frame) : Follows frame.behind := by
  cases frame with
  | named front back => exact follows_membersFrom back []
  | listed name others => exact follows_itemsFrom others []

theorem compact_named (front back members : List (String × Document)) :
    ((named front back).document members).compact =
      '\x7b' :: (Document.membersFrom true front ++
        (memberChars front.isEmpty ("context", .object members) ++ (named front back).behind)) := by
  rw [document, ← List.append_nil (Document.compact _), compact_object_append,
    membersFrom_eq_piecesFrom, piecesFrom_append, piecesFrom, behind]
  simp [membersFrom_eq_piecesFrom]

theorem compact_listed (name : Document) (others : List Document)
    (members : List (String × Document)) :
    ((listed name others).document members).compact =
      '[' :: (name.compact ++ ',' :: ((Document.object members).compact ++
        (listed name others).behind)) := by
  rw [document, ← List.append_nil (Document.compact _), compact_array_append, behind]
  simp [Document.itemsFrom, separator]

/-- Only what stands between the braces of the context depends on the order. -/
theorem compact_document (frame : Frame) (members : List (String × Document)) :
    (frame.document members).compact =
      frame.before ++ (Document.membersFrom true members ++ '\x7d' :: frame.behind) := by
  cases frame with
  | named front back =>
    rw [compact_named, memberChars_object]
    simp [before]
  | listed name others =>
    rw [compact_listed, compact_object_append]
    simp [before]

/-- Both texts have the same characters. -/
theorem perm_compact (frame : Frame) (h : members.Perm members') :
    (frame.document members).compact.Perm (frame.document members').compact := by
  rw [compact_document, compact_document]
  exact ((perm_membersFrom h).append_right _).append_left _

end Frame

/-- Either form of a program, between its own brackets. -/
theorem alike_partsReader (frame : Frame) (h : Context.Reordered limit members members')
    (budget : Nat) :
    Alike (¬ ∀ member ∈ members, Context.Decodable budget member) (fun _ ↦ True)
      (Document.membersFrom true members ++ '\x7d' :: frame.behind)
      (Document.membersFrom true members' ++ '\x7d' :: frame.behind)
      (partsReader (budget + 2) (frame.document members).compact)
      (partsReader (budget + 2) (frame.document members').compact) := by
  have hfollows := frame.follows_behind
  cases frame with
  | named front back =>
    have hparts := alike_namedParts h budget front hfollows
    have hrecord (ms : List (String × Document)) := demand_compact
      ((Frame.named front back).document ms) []
    simp only [List.append_nil] at hrecord
    rw [partsReader, record, bind_apply, bind_apply, hrecord, hrecord, Frame.compact_named,
      Frame.compact_named]
    exact hparts.enclosed closes_closeObject '\x7b'
  | listed name others =>
    have hparts := alike_positionalParts h budget name hfollows
    have hrecord (ms : List (String × Document)) := demand_compact
      ((Frame.listed name others).document ms) []
    simp only [List.append_nil] at hrecord
    rw [partsReader, record, bind_apply, bind_apply, hrecord, hrecord, Frame.compact_listed,
      Frame.compact_listed]
    exact hparts.enclosed closes_closeList '['

theorem alike_reader (frame : Frame) (h : Context.Reordered limit members members') :
    Alike (¬ ∀ member ∈ members, Context.Decodable (nestingLimit - 2) member) (fun _ ↦ True)
      (Document.membersFrom true members ++ '\x7d' :: frame.behind)
      (Document.membersFrom true members' ++ '\x7d' :: frame.behind)
      (Program.reader nestingLimit (frame.document members).compact)
      (Program.reader nestingLimit (frame.document members').compact) :=
  (alike_partsReader frame h (nestingLimit - 2)).bind _

/-! ## Orders of procedures -/

/-- What is told of a text: the program that it holds, or the text of the error with the offset of
its label. -/
def report (text : String) : Except (String × Nat) Program :=
  (decode text).mapError fun failure ↦ (failure.reason text, failure.labelOffset text)

/-- Both texts are decoded to the same program, or refused for the same cause and, unless they are
too deep, with as many bytes left. -/
theorem decode_reordered (frame : Frame) (h : Context.Reordered limit members members') :
    (∃ p, decode (frame.document members).toText = .ok p ∧
      decode (frame.document members').toText = .ok p) ∨
    ∃ failure failure' : Failure, decode (frame.document members).toText = .error failure ∧
      decode (frame.document members').toText = .error failure' ∧
      failure.cause = failure'.cause ∧
        ((¬ ∀ member ∈ members, Context.Decodable (nestingLimit - 2) member) ∨
          failure.reach = failure'.reach ∧
            byteLength failure.rest = byteLength failure'.rest) := by
  have halike := alike_reader frame h
  rw [← Document.toList_toText, ← Document.toList_toText] at halike
  exact decode_of_alike ((perm_membersFrom h.perm).append_right _) halike

/-- If no member is too deep where it stands, the reports are the same word for word. -/
theorem report_reordered (frame : Frame)
    (h : Context.Reordered (nestingLimit - 2) members members') :
    report (frame.document members).toText = report (frame.document members').toText := by
  rw [report, report]
  rcases decode_reordered frame h with
    ⟨p, hp, hp'⟩ | ⟨failure, failure', hfailure, hfailure', hcause, hdeep | ⟨hreach, hrest⟩⟩
  · rw [hp, hp']
    rfl
  · exact absurd h.decodable hdeep
  · have hchars : (frame.document members).toText.toList.Perm
        (frame.document members').toText.toList := by
      rw [Document.toList_toText, Document.toList_toText]
      exact frame.perm_compact h.perm
    have hline : '\n' ∉ (frame.document members).toText.toList := by
      rw [Document.toList_toText]
      exact Document.newline_notMem_compact _
    obtain ⟨hreason, hoffset⟩ := Failure.report_congr hcause hreach hrest hchars hline
    rw [hfailure, hfailure', Except.mapError, Except.mapError, hreason, hoffset]

theorem cause_reordered (frame : Frame) (h : Context.Reordered limit members members') :
    (decode (frame.document members).toText).mapError Failure.cause =
      (decode (frame.document members').toText).mapError Failure.cause := by
  rcases decode_reordered frame h with
    ⟨p, hp, hp'⟩ | ⟨failure, failure', hfailure, hfailure', hcause, -⟩
  · rw [hp, hp']
  · rw [hfailure, hfailure', Except.mapError, Except.mapError, hcause]

/-- A failure inside of the context that has a place is reported for the whole program, once the
members before the context have been read. -/
theorem decode_of_context_error {front back : List (String × Document)} {draft : Draft}
    (hfront : Absorbed (PartAbsorbs (nestingLimit - 1)) front {} draft)
    (hnone : draft.context = none) {cause : Cause} {left : List Char} {reach : Nat}
    (h : Context.reader (nestingLimit - 1)
      ((Document.object members).compact ++ (Frame.named front back).behind) =
        .error ⟨cause, left, some reach⟩) :
    decode ((Frame.named front back).document members).toText =
      .error ⟨cause, left, some reach⟩ := by
  have loop := loop_memberStep (fills_partMember (nestingLimit - 1))
  obtain ⟨⟨first, draft⟩, habsorbed, rfl⟩ :=
    (@exists_absorbed_flagged_iff _ _ _ front true _ _).mpr hfront
  have hfirst : first = front.isEmpty := (loop.repeatFor_absorbed habsorbed).1
  have hstep : memberStep (partMember (nestingLimit - 1)) (first, draft)
      (memberChars front.isEmpty ("context", .object members) ++
        (Frame.named front back).behind) = .error ⟨cause, left, some reach⟩ := by
    have honce : once "context" draft.context (Context.reader (nestingLimit - 1))
        (':' :: ((Document.object members).compact ++ (Frame.named front back).behind)) =
          .error ⟨cause, left, some reach⟩ := by
      rw [hnone, once_none, h]
    rw [hfirst, memberChars, List.append_assoc]
    exact memberStep_of_error rfl (bind_of_error honce _) _
  have hfollows (hne : front ≠ []) : Follows
      (memberChars front.isEmpty ("context", .object members) ++
        (Frame.named front back).behind) := by
    rw [List.isEmpty_eq_false_iff.mpr hne]
    exact follows_cons (.inl rfl) _
  have hparts : namedParts (nestingLimit - 1) (Document.membersFrom true front ++
      (memberChars front.isEmpty ("context", .object members) ++
        (Frame.named front back).behind)) = .error ⟨cause, left, some reach⟩ := by
    rw [namedParts_eq, membersFrom_eq_piecesFrom]
    exact bind_of_error (loop.repeatFrom_of_error rfl habsorbed hfollows hstep) _
  have hdemand := demand_compact ((Frame.named front back).document members) []
  rw [List.append_nil] at hdemand
  apply decode_of_error
  rw [Document.toList_toText]
  refine bind_of_error ?_ _
  rw [partsReader, record, bind_of_ok hdemand, Frame.compact_named]
  exact enclosed_of_error hparts '\x7b'

/-- Two procedures, of which only one fits into a program. Which of them comes before the
other can be told from the report. -/
theorem exists_reason_ne {front : List (String × Document)} {draft : Draft}
    (hfront : Absorbed (PartAbsorbs (nestingLimit - 1)) front {} draft)
    (hnone : draft.context = none) (back : List (String × Document)) {d : Document}
    (hdeep : Refuses (Statement.reader (nestingLimit - 2)) d.compact) (name : Identifier)
    {member : String × Document} (hmember : Context.Decodable (nestingLimit - 2) member) :
    let text := ((Frame.named front back).document [(name.text, d), member]).toText
    let text' := ((Frame.named front back).document [member, (name.text, d)]).toText
    ∃ failure failure' : Failure, decode text = .error failure ∧ decode text' = .error failure' ∧
      failure.reason text ≠ failure'.reason text' := by
  intro text text'
  obtain ⟨left, ⟨opening, hopening⟩, hstop⟩ := hdeep
  have hfirst : decode text = .error ⟨.breach .tooDeep, left ++
      (Document.membersFrom false [member] ++ '\x7d' :: (Frame.named front back).behind), some 1⟩ :=
    decode_of_context_error hfront hnone
      (Context.reader_refused [] .nil (List.forall_mem_nil _) hstop name [member] _)
  have hsecond : decode text' = .error ⟨.breach .tooDeep, left ++ (Document.membersFrom false [] ++
      '\x7d' :: (Frame.named front back).behind), some 1⟩ :=
    decode_of_context_error hfront hnone (Context.reader_refused [member]
      (List.pairwise_singleton _ _) (List.forall_mem_singleton.mpr hmember) hstop name [] _)
  have hmore : Document.membersFrom false [member] ≠ [] := by
    simp [Document.membersFrom, separator]
  have hbefore : (Frame.named front back).before ≠ [] := List.cons_ne_nil _ _
  have htext' : text'.toList = ((Frame.named front back).before ++
      (memberChars true member ++ separator false ++ stringChars name.text ++ ':' :: opening)) ++
        (left ++ (Document.membersFrom false [] ++ '\x7d' :: (Frame.named front back).behind)) := by
    rw [Document.toList_toText, Frame.compact_document]
    simp [Document.membersFrom, memberChars, ← hopening]
  refine ⟨_, _, hfirst, hsecond, ?_⟩
  refine Failure.reason_ne (List.append_ne_nil_of_left_ne_nil hbefore _) hmore
    (List.cons_ne_nil _ _) htext' ?_ ?_
  · rw [Document.toList_toText, Document.toList_toText]
    exact (Frame.named front back).perm_compact (.swap _ _ _)
  · rw [Document.toList_toText]
    exact Document.newline_notMem_compact _

/-- A context is refused exactly if it has an offending procedure, and the error is about the one
with the least bytes. The order of the members of a context makes no difference to what is told of a
program document if each of them can be read where it stands, inside of the brackets of the program
and of its context. If some can be read only where fewer brackets are open, the order still makes no
difference to the cause of the failure. -/
theorem outcome_independent_of_procedure_order :
    (∀ c : Context,
      ((∃ defect, checkContext c = .error defect) ↔ ∃ entry ∈ c.entries, Offends entry) ∧
      ∀ defect, checkContext c = .error defect ↔
        ∃ entry, FirstOffender c entry ∧ complaint entry = defect ∧
          defect.message =
            if entry.1.isPrimitive then
              "procedure '" ++ entry.1.text ++ "' redefines a primitive instruction"
            else entry.2.kind?.elim "Violation of: this is not an empty tree" fun found ↦
              "procedure '" ++ entry.1.text ++ "' must be a BLOCK, found " ++ found.spelling) ∧
    ∀ (frame : Frame) (members members' : List (String × Document)), members.Perm members' →
      (members.map (·.1)).Nodup →
      ((∀ member ∈ members, Context.Decodable (nestingLimit - 2) member) →
        report (frame.document members).toText = report (frame.document members').toText) ∧
      ∀ limit, (∀ member ∈ members, Context.Decodable limit member) →
        (decode (frame.document members).toText).mapError Failure.cause =
          (decode (frame.document members').toText).mapError Failure.cause := by
  refine ⟨fun c ↦ ⟨?_, fun defect ↦ ?_⟩, fun frame members members' hperm hdistinct ↦
    ⟨fun h ↦ report_reordered frame ⟨hperm, hdistinct, h⟩,
      fun limit h ↦ cause_reordered frame ⟨hperm, hdistinct, h⟩⟩⟩
  · simp only [checkContext_eq_error_iff]
    rw [← exists_firstOffender_iff, exists_comm]
    simp
  · rw [checkContext_eq_error_iff]
    apply exists_congr
    intro entry
    rw [and_congr_right_iff]
    intro _
    constructor
    · rintro rfl
      exact ⟨rfl, message_complaint entry⟩
    · exact And.left

/-- A loop and a block named after a primitive instruction, in both orders. -/
theorem report_names_least_offender_in_both_orders :
    let frame : Frame := .named [("name", .string "Trip")] [("body", Statement.emptyBlock.document)]
    let spin : Statement := ⟨.node (.whileDo .random) [.node .block []]⟩
    let members : List (String × Document) :=
      [("spin", spin.document), ("move", Statement.emptyBlock.document)]
    (∀ member ∈ members, Context.Decodable (nestingLimit - 2) member) ∧
      report (frame.document members).toText = report (frame.document members.reverse).toText ∧
      report (frame.document members).toText =
        .error ("Malformed program: procedure 'move' redefines a primitive instruction", 0) := by
  intro frame spin members
  have hdecodable : ∀ member ∈ members, Context.Decodable (nestingLimit - 2) member := by
    have hspin : spin.Sound := Statement.sound_iff_ofTree.mpr rfl
    rw [List.forall_mem_cons, List.forall_mem_singleton]
    exact ⟨hspin.decodable ⟨"spin", by decide⟩ (by decide),
      Statement.sound_emptyBlock.decodable ⟨"move", by decide⟩ (by decide)⟩
  refine ⟨hdecodable, ?_, ?_⟩
  · exact (outcome_independent_of_procedure_order.2 frame members members.reverse
      (List.reverse_perm members).symm (by decide)).1 hdecodable
  · rw [report, decode, Json.decode, Document.toList_toText]
    decide +kernel

/-- A block with 31 loops inside of each other can be read on its own, but not inside of a program.
The column where this is reported depends on what stands before it. -/
theorem deep_procedure_reported_where_it_stands :
    let frame : Frame := .named [("name", .string "P")] [("body", Statement.emptyBlock.document)]
    let members : List (String × Document) :=
      [("a", (Statement.loops .always 31).document), ("b", Statement.emptyBlock.document)]
    (members.map (·.1)).Nodup ∧ (∀ member ∈ members, Context.Decodable nestingLimit member) ∧
      ∃ failure failure' : Failure, decode (frame.document members).toText = .error failure ∧
        decode (frame.document members.reverse).toText = .error failure' ∧
        failure.reason (frame.document members).toText ≠
          failure'.reason (frame.document members.reverse).toText := by
  intro frame members
  have hheight := Statement.height_loops .always 31
  have hdecodable : ∀ member ∈ members, Context.Decodable nestingLimit member := by
    rw [List.forall_mem_cons, List.forall_mem_singleton]
    refine ⟨(Statement.sound_loops _ _).decodable ⟨"a", by decide⟩ ?_,
      Statement.sound_emptyBlock.decodable ⟨"b", by decide⟩ (by decide)⟩
    rw [hheight]
    decide
  have hdeep : Refuses (Statement.reader (nestingLimit - 2))
      (Statement.loops .always 31).document.compact := by
    apply Statement.refuses_reader
    rw [hheight]
    decide
  have hname : Absorbed (PartAbsorbs (nestingLimit - 1)) [("name", .string "P")] {}
      { name := some ⟨"P", by decide⟩ } := ⟨_, ⟨⟨"P", by decide⟩, ⟨rfl, rfl⟩, rfl⟩, rfl⟩
  refine ⟨by decide, hdecodable, ?_⟩
  exact exists_reason_ne hname rfl _ hdeep ⟨"a", by decide⟩
    (Statement.sound_emptyBlock.decodable ⟨"b", by decide⟩ (by decide))

end Program

end BLTree

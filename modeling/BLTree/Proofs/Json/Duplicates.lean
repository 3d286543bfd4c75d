import BLTree.Proofs.Json.Extents
import BLTree.Proofs.Json.Listing
import BLTree.Proofs.ProgramRuns

/-!
# Procedures that are defined twice

A text of a context consists of members in any spelling: keys may have escapes, and blanks may stand
wherever they are allowed. If every key and every body can be read on its own, then the whole text
can fail for two reasons only: a name comes twice, or a body is too deep for the brackets that are
left inside of the context. Reading such a text is the same as putting the procedures into a context
one after another, up to the first that is too deep or whose name is taken.
-/

namespace BLTree

open Json Json.Reader

namespace Json.Reader

variable {α : Type}

/-- Blanks before a character do not matter. -/
theorem upcoming_blanks {blanks : List Char} (h : ∀ c ∈ blanks, isBlank c = true)
    (text : List Char) : upcoming (blanks ++ text) = upcoming text := by
  have hdrop : (blanks ++ text).dropWhile isBlank = text.dropWhile isBlank :=
    List.dropWhile_append_of_pos h
  change Except.ok (((blanks ++ text).dropWhile isBlank).head?,
    (blanks ++ text).dropWhile isBlank) = _
  rw [hdrop]
  rfl

theorem upcoming_bind_blanks {blanks : List Char} (h : ∀ c ∈ blanks, isBlank c = true)
    (k : Option Char → Reader α) (text : List Char) :
    (upcoming >>= k) (blanks ++ text) = (upcoming >>= k) text := by
  rw [bind_apply, bind_apply, upcoming_blanks h]

/-- A string as a value begins with a quote, behind some blanks. -/
theorem exists_string_of_stringValue {text rest : List Char} {s : String}
    (h : stringValue text = .ok (s, rest)) :
    ∃ blanks inner, (∀ c ∈ blanks, isBlank c = true) ∧ text = blanks ++ '"' :: inner ∧
      string inner = .ok (s, rest) := by
  have hblanks : ∀ c ∈ text.takeWhile isBlank, isBlank c = true :=
    List.all_eq_true.mp List.all_takeWhile
  have htext : text = text.takeWhile isBlank ++ text.dropWhile isBlank :=
    List.takeWhile_append_dropWhile.symm
  rw [stringValue, demand_bind, htext, upcoming_bind_blanks hblanks] at h
  cases hdrop : text.dropWhile isBlank with
  | nil =>
    rw [hdrop] at h
    cases h
  | cons c inner =>
    have hc : isBlank c = false := by
      have hhead := List.head?_dropWhile_not isBlank text
      rw [hdrop] at hhead
      simpa using hhead
    rw [hdrop, bind_apply, upcoming_cons hc] at h
    dsimp only at h
    split at h
    · rename_i hquote
      subst hquote
      exact ⟨_, inner, hblanks, hdrop ▸ htext, h⟩
    · exact absurd h ((gives_wrongType _).ne_ok _ _)

/-- A key is read like a string that stands on its own. -/
theorem anotherKey_stringValue (first : Bool) {text rest : List Char} {s : String}
    (h : stringValue text = .ok (s, rest)) :
    anotherKey first (separator first ++ text) = .ok (some s, rest) := by
  obtain ⟨blanks, inner, hblanks, rfl, hstring⟩ := exists_string_of_stringValue h
  have hkey : anotherKey.key '"' ('"' :: inner) = .ok (some s, rest) := by
    simp [anotherKey.key, hstring]
  cases first with
  | true =>
    rw [anotherKey, separator, if_pos rfl, List.nil_append, upcoming_bind_blanks hblanks,
      bind_apply, upcoming_cons (by decide)]
    exact hkey
  | false =>
    have hnext : upcoming (blanks ++ '"' :: inner) = .ok (some '"', '"' :: inner) := by
      rw [upcoming_blanks hblanks, upcoming_cons (by decide)]
    rw [anotherKey, bind_apply, separator, if_neg (by decide), List.singleton_append,
      upcoming_cons (by decide)]
    simp [hnext, hkey]

end Json.Reader

namespace Context

/-- A member of a context as it is written, with all its blanks and escapes, and what its key and
its body are when each of them is read on its own. -/
structure Member where
  key : List Char
  body : List Char
  name : Identifier
  statement : Statement
  keyReads : decodeChars (fun _ ↦ Identifier.reader) key = .ok name
  bodyReads : decodeChars Statement.reader body = .ok statement

namespace Member

def entry (m : Member) : Identifier × Statement := (m.name, m.statement)

/-- Whether the body can also be read where only `budget` brackets may be opened. -/
def fits (budget : Nat) (m : Member) : Bool :=
  (decodeChars (fun _ ↦ Statement.reader budget) m.body).isOk

/-- A member behind the comma that it needs if it is not the first. -/
def piece (first : Bool) (m : Member) : List Char :=
  separator first ++ (m.key ++ ':' :: m.body)

/-- In front of whatever follows, a body is read as it is on its own, or it is too deep. -/
theorem read_body (m : Member) (budget : Nat) :
    ∃ blanks, (∀ c ∈ blanks, isBlank c = true) ∧ ∀ more,
      m.fits budget = true ∧
          Statement.reader budget (m.body ++ more) = .ok (m.statement, blanks ++ more) ∨
        m.fits budget = false ∧ TooDeep (Statement.reader budget (m.body ++ more)) := by
  obtain ⟨blanks, hblanks, hread⟩ :=
    exists_blanks_of_decodeChars (Statement.takes_reader nestingLimit) m.bodyReads
  refine ⟨blanks, hblanks, fun more ↦ ?_⟩
  rcases Statement.tightens_reader.ok_or_tooDeep (m := budget) (hread more) with hok | hdeep
  · obtain ⟨front, -, htext, hfront⟩ := Statement.takes_reader budget _ _ _ hok
    have hbody : m.body = front ++ blanks := by
      rwa [← List.append_assoc, List.append_cancel_right_eq] at htext
    have halone : decodeChars (fun _ ↦ Statement.reader budget) m.body = .ok m.statement :=
      decodeChars_eq_ok_iff.mpr ⟨blanks, hblanks, hbody ▸ hfront blanks trivial⟩
    exact .inl ⟨by rw [fits, halone]; rfl, hok⟩
  · refine .inr ⟨?_, hdeep⟩
    rw [fits]
    cases halone : decodeChars (fun _ ↦ Statement.reader budget) m.body with
    | error failure => rfl
    | ok s =>
      obtain ⟨_, -, hmore⟩ :=
        exists_blanks_of_decodeChars (Statement.takes_reader budget) halone
      obtain ⟨left, hleft⟩ := hdeep
      rw [hmore more] at hleft
      cases hleft

/-- A statement as it is written without blanks, under a name. -/
def written (name : Identifier) (s : Statement) (hs : s.Sound) (h : s.tree.height ≤ 63) :
    Member where
  key := name.document.compact
  body := s.document.compact
  name := name
  statement := s
  keyReads := by
    have hkey : decode (fun _ ↦ Identifier.reader) name.document.toText = .ok name :=
      decode_of_takesBack name.takesBack_reader
    rwa [decode, Document.toList_toText] at hkey
  bodyReads := by
    have hbody := hs.restoredByHeight.shallow h
    rwa [decode, Document.toList_toText] at hbody

/-- Every level of a statement takes two brackets. -/
theorem fits_written (name : Identifier) {s : Statement} (hs : s.Sound)
    (h : s.tree.height ≤ 63) (budget : Nat) :
    (written name s hs h).fits budget = decide (2 * s.tree.height ≤ budget) := by
  change (decodeChars (fun _ ↦ Statement.reader budget) s.document.compact).isOk = _
  by_cases hheight : 2 * s.tree.height ≤ budget
  · have hread := hs.takesBack_reader hheight []
    rw [List.append_nil] at hread
    rw [decodeChars, hread, decide_eq_true hheight]
    rfl
  · obtain ⟨left, hread⟩ := (Statement.refuses_reader (Nat.lt_of_not_le hheight)).tooDeep []
    rw [List.append_nil] at hread
    rw [decodeChars, hread, decide_eq_false hheight]
    rfl

end Member

/-- A context as it is written; `gap` is what stands before its closing brace. -/
def objectText (members : List Member) (gap : List Char) : List Char :=
  '\x7b' :: (piecesFrom Member.piece true members ++ (gap ++ ['\x7d']))

/-- What a member is refused for. -/
inductive Refusal where
  | tooDeep
  | taken (name : Identifier)

namespace Refusal

def cause : Refusal → Cause
  | tooDeep => .breach .tooDeep
  | taken name => .mismatch (.rejected (.program (.procedureTwice name)))

theorem message_taken (name : Identifier) : (taken name).cause.message =
    "Malformed program: procedure '" ++ name.text ++ "' is defined twice" := by
  change "Malformed program: " ++ ("procedure '" ++ name.text ++ "' is defined twice") = _
  rw [← String.append_assoc, ← String.append_assoc]
  rfl

end Refusal

/-- Takes a member into a context. Its body is looked at before its name. -/
def accept (budget : Nat) (c : Context) (m : Member) : Except Refusal Context :=
  if m.fits budget then
    if c.contains m.name then .error (.taken m.name) else .ok (c.insert m.name m.statement)
  else .error .tooDeep

/-- Takes members into a context one after another, up to the first that is refused. -/
def acceptAll (budget : Nat) (c : Context) : List Member → Except Refusal Context
  | [] => .ok c
  | m :: others =>
    match c.accept budget m with
    | .ok d => d.acceptAll budget others
    | .error refusal => .error refusal

variable {budget : Nat} {members : List Member}

theorem contains_eq_true_iff {c : Context} {name : Identifier} :
    c.contains name = true ↔ name ∈ c.names := by
  rw [← not_iff_not, Bool.not_eq_true, contains_eq_false_iff, not_iff_not, List.mem_map]
  exact ⟨fun ⟨other, hother, htext⟩ ↦ Identifier.ext htext ▸ hother, fun h ↦ ⟨name, h, rfl⟩⟩

theorem accept_eq_ok_iff {c d : Context} {m : Member} :
    c.accept budget m = .ok d ↔
      m.fits budget = true ∧ c.contains m.name = false ∧ c.insert m.name m.statement = d := by
  rw [accept]
  split_ifs with hfits htaken
  · simp [htaken]
  · simp [hfits, htaken]
  · simp [hfits]

/-- A member that is refused is too deep, or its name is taken. -/
theorem accept_eq_error_iff {c : Context} {m : Member} {refusal : Refusal} :
    c.accept budget m = .error refusal ↔
      m.fits budget = false ∧ .tooDeep = refusal ∨
        m.fits budget = true ∧ m.name ∈ c.names ∧ .taken m.name = refusal := by
  rw [accept, ← contains_eq_true_iff]
  split_ifs with hfits htaken
  · simp [hfits, htaken]
  · simp [hfits, htaken]
  · simp [hfits]

/-- All members are kept if they can be taken into the context at all. -/
theorem perm_of_acceptAll {c d : Context} (h : c.acceptAll budget members = .ok d) :
    (∀ m ∈ members, m.fits budget = true) ∧
      d.entries.Perm (members.map Member.entry ++ c.entries) := by
  induction members generalizing c with
  | nil =>
    cases h
    exact ⟨nofun, .refl _⟩
  | cons m others ih =>
    rw [acceptAll] at h
    split at h
    · rename_i next hnext
      obtain ⟨hfits, hnew, rfl⟩ := accept_eq_ok_iff.mp hnext
      obtain ⟨hothers, hperm⟩ := ih h
      have hinsert := perm_insert hnew m.statement
      exact ⟨List.forall_mem_cons.mpr ⟨hfits, hothers⟩,
        hperm.trans ((hinsert.append_left _).trans List.perm_middle)⟩
    · cases h

/-- A member is refused, and it is the first for which there is a reason. -/
theorem exists_split_of_acceptAll {c : Context} {refusal : Refusal}
    (h : c.acceptAll budget members = .error refusal) :
    ∃ front m back, members = front ++ m :: back ∧ (∀ other ∈ front, other.fits budget = true) ∧
      (front.map Member.name ++ c.names).Nodup ∧
      (m.fits budget = false ∧ .tooDeep = refusal ∨
        m.fits budget = true ∧ m.name ∈ front.map Member.name ++ c.names ∧
          .taken m.name = refusal) := by
  induction members generalizing c with
  | nil => cases h
  | cons m others ih =>
    rw [acceptAll] at h
    split at h
    · rename_i next hnext
      obtain ⟨hfits, hnew, rfl⟩ := accept_eq_ok_iff.mp hnext
      obtain ⟨front, later, back, rfl, hfront, hnodup, hreason⟩ := ih h
      -- The new name moves from the context to the front, which only permutes all names together.
      have hnames : (front.map Member.name ++ (c.insert m.name m.statement).names).Perm
          (m.name :: (front.map Member.name ++ c.names)) :=
        (((perm_insert hnew m.statement).map Prod.fst).append_left _).trans List.perm_middle
      refine ⟨m :: front, later, back, rfl, List.forall_mem_cons.mpr ⟨hfits, hfront⟩,
        hnames.nodup_iff.mp hnodup, ?_⟩
      rwa [hnames.mem_iff] at hreason
    · rename_i stopped hstopped
      obtain rfl := Except.error.inj h
      exact ⟨[], m, others, rfl, nofun, c.nodup_names, accept_eq_error_iff.mp hstopped⟩

theorem procedureStep_blanks {blanks : List Char} (h : ∀ c ∈ blanks, isBlank c = true)
    (state : Bool × Context) (text : List Char) :
    procedureStep budget state (blanks ++ text) = procedureStep budget state text := by
  have hkey : anotherKey state.1 (blanks ++ text) = anotherKey state.1 text :=
    upcoming_bind_blanks h _ text
  simp only [procedureStep]
  rw [bind_apply, bind_apply, hkey]

theorem procedureStep_close (state : Bool × Context) (rest : List Char) :
    procedureStep budget state ('\x7d' :: rest) = .ok (.inr state.2, '\x7d' :: rest) :=
  (loop_procedureStep budget).closes state rest

/-- Once the key is read, the body decides. -/
theorem procedureStep_key (m : Member) (first : Bool) (c : Context) (rest : List Char) :
    procedureStep budget (first, c) (m.piece first ++ rest) =
      (Statement.reader budget >>= fun body ↦
        if c.contains m.name then mismatch (.rejected (.program (.procedureTwice m.name)))
        else pure (.inl (false, c.insert m.name body))) (m.body ++ rest) := by
  obtain ⟨keyBlanks, hkeyBlanks, hkey⟩ :=
    exists_blanks_of_decodeChars Identifier.takes_reader m.keyReads
  have htext : m.piece first ++ rest = separator first ++ (m.key ++ ':' :: (m.body ++ rest)) := by
    simp [Member.piece]
  obtain ⟨word, left, hword, hvetted⟩ := bind_eq_ok_iff.mp (hkey (':' :: (m.body ++ rest)))
  obtain ⟨hname, rfl⟩ := vetted_eq_ok_iff.mp hvetted
  have hcolon : colon (keyBlanks ++ ':' :: (m.body ++ rest)) = .ok ((), m.body ++ rest) := by
    rw [colon, upcoming_bind_blanks hkeyBlanks]
    exact colon_cons _
  have hread : vetted (readIdentifier word) (keyBlanks ++ ':' :: (m.body ++ rest)) =
      .ok (m.name, keyBlanks ++ ':' :: (m.body ++ rest)) := vetted_eq_ok_iff.mpr ⟨hname, rfl⟩
  simp only [procedureStep]
  rw [htext, bind_of_ok (anotherKey_stringValue first hword)]
  dsimp only
  rw [bind_of_ok hread, bind_of_ok hcolon]

/-- A member that can be read on its own is taken into the context or refused. -/
theorem procedureStep_piece (m : Member) (first : Bool) (c : Context) :
    ∃ blanks, (∀ d ∈ blanks, isBlank d = true) ∧ ∀ rest,
      match c.accept budget m with
      | .ok d => procedureStep budget (first, c) (m.piece first ++ rest) =
          .ok (.inl (false, d), blanks ++ rest)
      | .error refusal => ∃ left reach, procedureStep budget (first, c) (m.piece first ++ rest) =
          .error ⟨refusal.cause, left, reach⟩ := by
  obtain ⟨blanks, hblanks, hbody⟩ := m.read_body budget
  refine ⟨blanks, hblanks, fun rest ↦ ?_⟩
  rw [procedureStep_key, accept]
  rcases hbody rest with ⟨hfits, hread⟩ | ⟨hfits, hdeep⟩
  · rw [if_pos hfits, bind_of_ok hread]
    split_ifs
    · exact ⟨_, _, rfl⟩
    · rfl
  · rw [if_neg (by simp [hfits])]
    obtain ⟨left, hleft⟩ := hdeep.bind _
    exact ⟨left, some 1, hleft⟩

/-- One round for each member that is taken into the context, and one for the closing brace. -/
theorem repeatFor_procedureStep (members : List Member) {blanks gap : List Char}
    (hblanks : ∀ d ∈ blanks, isBlank d = true) (hgap : ∀ d ∈ gap, isBlank d = true)
    (rest : List Char) {rounds : Nat} (hrounds : members.length < rounds) (first : Bool)
    (c : Context) :
    ∃ left reach, repeatFor (procedureStep budget) rounds (first, c)
        (blanks ++ (piecesFrom Member.piece first members ++ (gap ++ '\x7d' :: rest))) =
      ((c.acceptAll budget members).map (·, '\x7d' :: rest)).mapError
        fun refusal ↦ ⟨refusal.cause, left, reach⟩ := by
  obtain ⟨fewer, rfl⟩ := Nat.exists_eq_add_one.mpr (Nat.zero_lt_of_lt hrounds)
  induction members generalizing blanks fewer first c with
  | nil =>
    refine ⟨[], none, repeatFor_inr ?_ fewer⟩
    rw [piecesFrom, List.nil_append, procedureStep_blanks hblanks, procedureStep_blanks hgap]
    exact procedureStep_close _ rest
  | cons m others ih =>
    obtain ⟨behind, hbehind, hstep⟩ := @procedureStep_piece budget m first c
    have hround := hstep (piecesFrom Member.piece false others ++ (gap ++ '\x7d' :: rest))
    rw [← List.append_assoc, ← procedureStep_blanks hblanks] at hround
    rw [piecesFrom, acceptAll]
    cases haccept : c.accept budget m with
    | ok d =>
      rw [haccept] at hround
      -- The blanks behind this member are those in front of what follows it.
      rw [List.length_cons] at hrounds
      obtain ⟨fewest, rfl⟩ := Nat.exists_eq_add_one.mpr
        (Nat.zero_lt_of_lt (Nat.lt_of_succ_lt_succ hrounds))
      rw [repeatFor_inl hround]
      exact ih hbehind false d fewest (Nat.lt_of_succ_lt_succ hrounds)
    | error refusal =>
      rw [haccept] at hround
      obtain ⟨left, reach, hround⟩ := hround
      refine ⟨left, reach, ?_⟩
      rw [repeatFor, bind_apply, hround]
      rfl

theorem length_le_length_piecesFrom (first : Bool) (members : List Member) :
    members.length ≤ (piecesFrom Member.piece first members).length := by
  induction members generalizing first with
  | nil => exact Nat.le_refl 0
  | cons m others ih =>
    have hothers := ih false
    rw [piecesFrom, Member.piece]
    simp only [List.length_append, List.length_cons]
    omega

/-- Reading a context is taking its members into an empty one. -/
theorem reader_objectText (members : List Member) (budget : Nat) {before gap : List Char}
    (hbefore : ∀ d ∈ before, isBlank d = true) (hgap : ∀ d ∈ gap, isBlank d = true)
    (rest : List Char) :
    ∃ left reach, Context.reader (budget + 1) (before ++ (objectText members gap ++ rest)) =
      ((empty.acceptAll budget members).map (·, rest)).mapError
        fun refusal ↦ ⟨refusal.cause, left, some reach⟩ := by
  have htext : objectText members gap ++ rest =
      '\x7b' :: (piecesFrom Member.piece true members ++ (gap ++ '\x7d' :: rest)) := by
    simp [objectText]
  have hrounds : members.length <
      (piecesFrom Member.piece true members ++ (gap ++ '\x7d' :: rest)).length + 2 := by
    have hpieces := length_le_length_piecesFrom true members
    rw [List.length_append]
    omega
  have hnone : ∀ d ∈ [], isBlank d = true := List.forall_mem_nil _
  obtain ⟨left, reach, hread⟩ :=
    @repeatFor_procedureStep budget members _ _ hnone hgap rest _ hrounds true empty
  have hprocedures : procedures budget
      (piecesFrom Member.piece true members ++ (gap ++ '\x7d' :: rest)) = _ := hread
  have hobject : Context.reader (budget + 1) (before ++ (objectText members gap ++ rest)) =
      enclosed closeObject procedures (budget + 1) (objectText members gap ++ rest) := by
    rw [Context.reader, demand_bind, upcoming_bind_blanks hbefore, htext,
      bind_of_ok (upcoming_cons (by decide) _)]
    rfl
  rw [hobject, htext]
  cases haccept : empty.acceptAll budget members with
  | ok c =>
    rw [haccept] at hprocedures
    exact ⟨[], 0, enclosed_ok hprocedures (closeObject_brace rest) _⟩
  | error refusal =>
    rw [haccept] at hprocedures
    exact exists_enclosed_error hprocedures _

/-- Members that an empty context takes in all fit, and no two of them have the same name. -/
theorem acceptAll_empty_eq_ok {c : Context} (h : empty.acceptAll budget members = .ok c) :
    (∀ m ∈ members, m.fits budget = true) ∧ (members.map Member.name).Nodup ∧
      c.entries.Perm (members.map Member.entry) := by
  obtain ⟨hfits, hperm⟩ := perm_of_acceptAll h
  rw [empty, List.append_nil] at hperm
  have hnames : c.names.Perm (members.map Member.name) := by
    have hmap := hperm.map Prod.fst
    rwa [List.map_map] at hmap
  exact ⟨hfits, hnames.nodup_iff.mp c.nodup_names, hperm⟩

theorem acceptAll_empty_eq_error {refusal : Refusal}
    (h : empty.acceptAll budget members = .error refusal) :
    ∃ front m back, members = front ++ m :: back ∧ (front.map Member.name).Nodup ∧
      (∀ other ∈ front, other.fits budget = true) ∧
      (m.fits budget = true → m.name ∈ front.map Member.name) ∧
      refusal.cause.message =
        if m.fits budget then
          "Malformed program: procedure '" ++ m.name.text ++ "' is defined twice"
        else "recursion limit exceeded" := by
  obtain ⟨front, m, back, hsplit, hfront, hnodup, hreason⟩ := exists_split_of_acceptAll h
  rw [empty, names, List.map_nil, List.append_nil] at hnodup hreason
  refine ⟨front, m, back, hsplit, hnodup, hfront, ?_⟩
  rcases hreason with ⟨hfits, rfl⟩ | ⟨hfits, hmem, rfl⟩
  · exact ⟨by simp [hfits], by rw [if_neg (by simp [hfits])]; rfl⟩
  · exact ⟨fun _ ↦ hmem, by rw [if_pos hfits, Refusal.message_taken]⟩

/-- Let every member of a context be readable on its own, in whatever spelling. With `budget`
brackets left for its members, the context is refused exactly if two of them have the same name or
one of them does not fit into these brackets. It is the first such member that the error is about:
its body does not fit, or else its name came before. If the context is not refused, it holds what
its members say and nothing else, in the order of bytes. In a program a context is read with one
bracket less than `nestingLimit`, so that one more is gone inside of it. -/
theorem procedures_defined_twice_refused (members : List Member) (budget : Nat)
    {before gap : List Char} (hbefore : ∀ d ∈ before, isBlank d = true)
    (hgap : ∀ d ∈ gap, isBlank d = true) (rest : List Char) :
    let run := Context.reader (budget + 1) (before ++ (objectText members gap ++ rest))
    ((∃ failure, run = .error failure) ↔
      ¬ (members.map Member.name).Nodup ∨ ∃ m ∈ members, m.fits budget = false) ∧
    (∀ failure, run = .error failure →
      ∃ front m back, members = front ++ m :: back ∧ (front.map Member.name).Nodup ∧
        (∀ other ∈ front, other.fits budget = true) ∧
        (m.fits budget = true → m.name ∈ front.map Member.name) ∧
        failure.cause.message =
          if m.fits budget then
            "Malformed program: procedure '" ++ m.name.text ++ "' is defined twice"
          else "recursion limit exceeded") ∧
    ∀ c left, run = .ok (c, left) →
      left = rest ∧ c.entries.Perm (members.map Member.entry) ∧
        (∀ name body, c.get? name = some body ↔
          ∃ m ∈ members, (m.name.text, m.statement) = (name, body)) ∧
        (c.names.map Identifier.bytes).Pairwise (· < ·) := by
  intro run
  obtain ⟨left, reach, hread⟩ := reader_objectText members budget hbefore hgap rest
  change run = _ at hread
  cases haccept : empty.acceptAll budget members with
  | ok c =>
    rw [haccept] at hread
    obtain ⟨hfits, hnodup, hperm⟩ := acceptAll_empty_eq_ok haccept
    have hends : ∀ failure, run ≠ .error failure := fun failure hfailure ↦ by
      cases hread.symm.trans hfailure
    refine ⟨⟨fun ⟨failure, hfailure⟩ ↦ absurd hfailure (hends failure), ?_⟩,
      fun failure hfailure ↦ absurd hfailure (hends failure), ?_⟩
    · rintro (htwice | ⟨m, hm, hdeep⟩)
      · exact absurd hnodup htwice
      · rw [hfits m hm] at hdeep
        cases hdeep
    · intro d left hd
      obtain ⟨rfl, rfl⟩ := Prod.mk.inj (Except.ok.inj (hread.symm.trans hd))
      refine ⟨rfl, hperm, fun name body ↦ ?_, c.pairwise_bytes⟩
      simp only [get?_eq_some_iff, hperm.mem_iff, List.mem_map, exists_exists_and_eq_and,
        Member.entry]
  | error refusal =>
    rw [haccept] at hread
    obtain ⟨front, m, back, hsplit, hnodup, hfront, hname, hmessage⟩ :=
      acceptAll_empty_eq_error haccept
    refine ⟨⟨fun _ ↦ ?_, fun _ ↦ ⟨_, hread⟩⟩, ?_, ?_⟩
    · cases hfits : m.fits budget with
      | false => exact .inr ⟨m, by simp [hsplit], hfits⟩
      | true =>
        refine .inl fun hall ↦ ?_
        rw [hsplit, List.map_append, List.map_cons] at hall
        exact (List.nodup_append.mp hall).2.2 m.name (hname hfits) m.name List.mem_cons_self rfl
    · intro failure hfailure
      obtain rfl := Except.error.inj (hread.symm.trans hfailure)
      exact ⟨front, m, back, hsplit, hnodup, hfront, hname, hmessage⟩
    · intro c left hc
      cases hread.symm.trans hc

/-- Three members, the last of which has the name of the first in another spelling. -/
theorem same_name_in_two_spellings :
    let body := "[ \"BLOCK\" ,[ ] ]\n".toList
    let go : Identifier := ⟨"go", by decide⟩
    let back : Identifier := ⟨"back", by decide⟩
    let members : List Member :=
      [⟨" \"g\\u006f\" ".toList, body, go, .emptyBlock, by decide +kernel, by decide +kernel⟩,
        ⟨"\"back\"".toList, body, back, .emptyBlock, by decide +kernel, by decide +kernel⟩,
        ⟨"\t\"go\"".toList, body, go, .emptyBlock, by decide +kernel, by decide +kernel⟩]
    (∀ d ∈ ['\n'], isBlank d = true) ∧
      (∃ failure, Context.reader (nestingLimit - 1) ('\n' :: objectText members []) =
        .error failure) ∧
      ∀ failure, Context.reader (nestingLimit - 1) (objectText (members.take 2) ['\n']) ≠
        .error failure := by
  intro body go back members
  have hnone : ∀ d ∈ [], isBlank d = true := List.forall_mem_nil _
  have hline : ∀ d ∈ ['\n'], isBlank d = true := List.forall_mem_singleton.mpr rfl
  have hthree := (procedures_defined_twice_refused members (nestingLimit - 2) hline hnone []).1
  have htwo :=
    (procedures_defined_twice_refused (members.take 2) (nestingLimit - 2) hnone hline []).1
  rw [List.append_nil] at hthree htwo
  refine ⟨hline, hthree.mpr (.inl (by decide)), fun failure hfailure ↦ ?_⟩
  exact absurd (htwo.mp ⟨failure, hfailure⟩) (by decide +kernel)

/-- The only procedure of a context is a block with 31 loops inside of each other, 63 levels in all.
It can be read on its own, but not where a context stands in a program. -/
theorem deep_procedure_refused_without_namesake :
    let m := Member.written ⟨"a", by decide⟩ (.loops .always 31) (Statement.sound_loops _ _)
      (Nat.le_of_eq (Statement.height_loops _ _))
    ([m].map Member.name).Nodup ∧
      ∃ failure, Context.reader (nestingLimit - 1) (objectText [m] []) = .error failure ∧
        failure.cause.message = "recursion limit exceeded" := by
  intro m
  have hfits : m.fits (nestingLimit - 2) = false := by
    rw [Member.fits_written, Statement.height_loops]
    rfl
  have haccept : empty.acceptAll (nestingLimit - 2) [m] = .error .tooDeep := by
    rw [acceptAll, accept_eq_error_iff.mpr (.inl ⟨hfits, rfl⟩)]
  have hnone : ∀ d ∈ [], isBlank d = true := List.forall_mem_nil _
  obtain ⟨left, reach, hread⟩ := reader_objectText [m] (nestingLimit - 2) hnone hnone []
  rw [List.append_nil, List.nil_append, haccept] at hread
  exact ⟨List.nodup_singleton _, _, hread, rfl⟩

end Context

end BLTree

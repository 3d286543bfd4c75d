import BLTree.Proofs.Json.Records

/-!
# Readers that do not look past their text

How a document is read does not depend on what follows it. This is known of documents that are
accepted; here it is said of failures as well, with their cause, their reach and the place that they
leave the text at. The outcome of a reader on a text is determined if it is one and the same outcome
whatever follows, only with that behind the rest. The rules follow the building blocks of readers.
Brackets ask for more than looking at what is next: a mismatch without a place is given one by
trying to close the bracket around it, which happens inside the text because the closing bracket is
there.
-/

namespace BLTree.Json.Reader

variable {α β γ σ : Type} {may : List Char → Prop}

/-- An outcome on the front of a text, as an outcome on the whole text. -/
def followedBy (rest : List Char) :
    Except Failure (α × List Char) → Except Failure (α × List Char)
  | .ok (a, left) => .ok (a, left ++ rest)
  | .error failure => .error { failure with rest := failure.rest ++ rest }

theorem followedBy_append (more rest : List Char) (outcome : Except Failure (α × List Char)) :
    followedBy (more ++ rest) outcome = followedBy rest (followedBy more outcome) := by
  cases outcome <;> simp [followedBy]

/-- The outcome on `text` is the same whatever follows, as far as it `may` follow. -/
def Determined (may : List Char → Prop) (r : Reader α) (text : List Char) : Prop :=
  ∃ outcome, ∀ rest, may rest → r (text ++ rest) = followedBy rest outcome

theorem determined_pure (a : α) (text : List Char) : Determined may (pure a) text :=
  ⟨.ok (a, text), fun _ _ ↦ rfl⟩

theorem determined_failHere (cause : Cause) (text : List Char) :
    Determined may (failHere cause : Reader α) text :=
  ⟨.error ⟨cause, text, some 0⟩, fun _ _ ↦ rfl⟩

theorem determined_failNext (cause : Cause) (text : List Char) :
    Determined may (failNext cause : Reader α) text :=
  ⟨.error ⟨cause, text, some 1⟩, fun _ _ ↦ rfl⟩

/-- A failure without a place is the same whatever follows. -/
theorem determined_mismatch (m : Mismatch) (text : List Char) :
    Determined may (mismatch m : Reader α) text :=
  ⟨.error ⟨.mismatch m, text, none⟩, fun _ _ ↦ rfl⟩

theorem determined_vetted (outcome : Except Fault α) (text : List Char) :
    Determined may (vetted outcome) text := by
  cases outcome with
  | ok a => exact determined_pure a text
  | error fault => exact determined_mismatch _ text

theorem determined_required (key : String) (value : Option α) (text : List Char) :
    Determined may (required key value) text := by
  cases value with
  | some a => exact determined_pure a text
  | none => exact determined_mismatch _ text

/-- A reader that takes its text back does not look behind it. -/
theorem TakesBack.determined {r : Reader α} {text : List Char} {a : α} (h : TakesBack r text a) :
    Determined may r text :=
  ⟨.ok (a, []), fun rest _ ↦ h rest⟩

/-- Only the outcome on the text matters, not how it comes about. -/
theorem Determined.congr {r s : Reader α} {text : List Char} (h : Determined may s text)
    (heq : ∀ rest, may rest → r (text ++ rest) = s (text ++ rest)) : Determined may r text := by
  obtain ⟨outcome, houtcome⟩ := h
  refine ⟨outcome, ?_⟩
  intro rest hrest
  rw [heq rest hrest, houtcome rest hrest]

/-- It is easier to be indifferent to fewer continuations. -/
theorem Determined.imp {may' : List Char → Prop} {r : Reader α} {text : List Char}
    (h : Determined may r text) (hmay : ∀ rest, may' rest → may rest) : Determined may' r text := by
  obtain ⟨outcome, houtcome⟩ := h
  exact ⟨outcome, fun rest hrest ↦ houtcome rest (hmay rest hrest)⟩

/-- A first step that succeeds. -/
theorem determined_bind_ok {r : Reader α} {f : α → Reader β} {text left : List Char} {a : α}
    (h : ∀ rest, may rest → r (text ++ rest) = .ok (a, left ++ rest))
    (hf : Determined may (f a) left) : Determined may (r >>= f) text := by
  obtain ⟨outcome, houtcome⟩ := hf
  refine ⟨outcome, ?_⟩
  intro rest hrest
  rw [bind_apply, h rest hrest]
  exact houtcome rest hrest

/-- A first step that fails. -/
theorem determined_bind_error {r : Reader α} {f : α → Reader β} {text : List Char}
    (failure : Failure)
    (h : ∀ rest, may rest → r (text ++ rest) = followedBy rest (.error failure)) :
    Determined may (r >>= f) text := by
  refine ⟨.error failure, ?_⟩
  intro rest hrest
  rw [bind_apply, h rest hrest]
  rfl

/-- Both readers have to be indifferent, the second whatever is left. -/
theorem Determined.bind {r : Reader α} {f : α → Reader β} {text : List Char}
    (h : Determined may r text) (hf : ∀ a left, Determined may (f a) left) :
    Determined may (r >>= f) text := by
  obtain ⟨outcome, houtcome⟩ := h
  cases outcome with
  | ok result => exact determined_bind_ok houtcome (hf result.1 result.2)
  | error failure => exact determined_bind_error failure houtcome

theorem Determined.map {r : Reader α} {text : List Char} (h : Determined may r text) (f : α → β) :
    Determined may (r >>= fun a ↦ pure (f a)) text :=
  h.bind fun a left ↦ determined_pure (f a) left

/-- A document is read to its end or not at all. -/
theorem Determined.whole {r : Reader α} {text : List Char} {means : α → Prop}
    (h : Determined Follows r text) (hmeans : Decides r text means) :
    (∃ a, means a ∧ ∀ rest, Follows rest → r (text ++ rest) = .ok (a, rest)) ∨
      ∃ failure, ∀ rest, Follows rest → r (text ++ rest) = followedBy rest (.error failure) := by
  obtain ⟨outcome, houtcome⟩ := h
  cases outcome with
  | error failure => exact .inr ⟨failure, houtcome⟩
  | ok result =>
    have hread := (hmeans [] follows_nil result.1 (result.2 ++ [])).mp (houtcome [] follows_nil)
    have hleft : result.2 = [] := (List.append_eq_nil_iff.mp hread.2).1
    refine .inl ⟨result.1, hread.1, ?_⟩
    intro rest hrest
    rw [houtcome rest hrest, followedBy, hleft, List.nil_append]

/-- After a document comes what follows it. -/
theorem Determined.bind_decided {r : Reader α} {f : α → Reader β} {text more : List Char}
    {means : α → Prop} (h : Determined Follows r text) (hmeans : Decides r text means)
    (hmore : ∀ rest, may rest → Follows (more ++ rest))
    (hf : ∀ a, means a → Determined may (f a) more) : Determined may (r >>= f) (text ++ more) := by
  rcases h.whole hmeans with ⟨a, ha, hread⟩ | ⟨failure, hfailure⟩
  · refine determined_bind_ok (fun rest hrest ↦ ?_) (hf a ha)
    rw [List.append_assoc, hread _ (hmore rest hrest)]
  · refine determined_bind_error { failure with rest := failure.rest ++ more } ?_
    intro rest hrest
    rw [List.append_assoc, hfailure _ (hmore rest hrest), followedBy_append]
    rfl

theorem determined_advance (c : Char) (text : List Char) : Determined may advance (c :: text) :=
  ⟨.ok ((), text), fun _ _ ↦ rfl⟩

theorem Determined.advance {r : Reader α} {text : List Char} (h : Determined may r text)
    (c : Char) : Determined may (Reader.advance >>= fun _ ↦ r) (c :: text) := h

/-! ## Brackets -/

/-- A text in which the next character can be looked up, and behind a comma the one after it. -/
def Halts (text : List Char) : Prop := ∃ c ∈ text, isBlank c = false ∧ c ≠ ','

/-- A closing bracket stops all blanks. -/
theorem halts_closing (text : List Char) (bracket : Bracket) :
    Halts (text ++ [bracket.closing]) :=
  ⟨bracket.closing, by simp, isBlank_closing bracket, closing_ne_comma bracket⟩

/-- The next character lies before the end, unless it is a comma with nothing behind it. -/
theorem Halts.exists_upcoming {text : List Char} (h : Halts text) :
    ∃ c left, (∀ rest, upcoming (text ++ rest) = .ok (some c, (c :: left) ++ rest)) ∧
      (c = ',' → Halts left) := by
  obtain ⟨d, hd, hblank, hcomma⟩ := h
  induction text with
  | nil => cases hd
  | cons c others ih =>
    by_cases hc : isBlank c = true
    · have hne : d ≠ c := fun heq ↦ by simp [heq, hc] at hblank
      obtain ⟨e, left, hnext, hhalts⟩ := ih ((List.mem_cons.mp hd).resolve_left hne)
      refine ⟨e, left, ?_, hhalts⟩
      intro rest
      rw [← hnext rest]
      change (Except.ok (((c :: (others ++ rest)).dropWhile isBlank).head?,
        (c :: (others ++ rest)).dropWhile isBlank) : Except Failure _) = _
      rw [List.dropWhile_cons_of_pos hc]
      rfl
    · refine ⟨c, others, fun rest ↦ upcoming_cons (by simpa using hc) _, ?_⟩
      intro heq
      have hne : d ≠ c := fun h ↦ hcomma (h.trans heq)
      exact ⟨d, (List.mem_cons.mp hd).resolve_left hne, hblank, hcomma⟩

/-- How a brace is missed can be told before the end of the text. -/
theorem determined_closeObject {text : List Char} (h : Halts text) :
    Determined may closeObject text := by
  obtain ⟨c, left, hnext, -⟩ := h.exists_upcoming
  apply determined_bind_ok fun rest _ ↦ hnext rest
  split
  · exact determined_advance c left
  · exact determined_failNext _ _
  · exact determined_failNext _ _
  · exact determined_failNext _ _

theorem determined_closeList {text : List Char} (h : Halts text) :
    Determined may closeList text := by
  obtain ⟨c, left, hnext, hhalts⟩ := h.exists_upcoming
  apply determined_bind_ok fun rest _ ↦ hnext rest
  split
  · exact determined_advance c left
  · rename_i heq
    obtain ⟨d, left', hnext', -⟩ := (hhalts (Option.some.inj heq)).exists_upcoming
    refine Determined.advance ?_ c
    apply determined_bind_ok fun rest _ ↦ hnext' rest
    exact determined_failNext _ _
  · exact determined_failNext _ _
  · exact determined_failNext _ _

/-- Trying to close a bracket does not lead out of a text in which it ends. -/
def Closes (close : Reader Unit) : Prop := ∀ text, Halts text → Determined (fun _ ↦ True) close text

theorem closes_closeList : Closes closeList := fun _ h ↦ determined_closeList h

theorem closes_closeObject : Closes closeObject := fun _ h ↦ determined_closeObject h

/-- A failure that gets its place at a bracket gets it before the end of the text. -/
theorem Closes.exists_settled {close : Reader Unit} (h : Closes close) (failure : Failure)
    (hhalts : Halts failure.rest) :
    ∃ settled : Failure, ∀ rest,
      settledBy close { failure with rest := failure.rest ++ rest } =
        { settled with rest := settled.rest ++ rest } := by
  obtain ⟨cause, left, reach⟩ := failure
  cases reach with
  | some reach => exact ⟨⟨cause, left, some reach⟩, fun _ ↦ rfl⟩
  | none =>
    obtain ⟨outcome, houtcome⟩ := h left hhalts
    cases outcome with
    | ok result =>
      refine ⟨⟨cause, result.2, some 0⟩, ?_⟩
      intro rest
      simp [settledBy, houtcome, followedBy]
    | error stopped =>
      refine ⟨⟨cause, stopped.rest, some 0⟩, ?_⟩
      intro rest
      simp [settledBy, houtcome, followedBy]

/-- The text behind what a bracket encloses. -/
def ClosedBy (bracket : Bracket) (rest : List Char) : Prop := ∃ more, rest = bracket.closing :: more

/-- A closing bracket may follow a value. -/
theorem ClosedBy.follows {bracket : Bracket} {rest : List Char} (h : ClosedBy bracket rest) :
    Follows rest := by
  obtain ⟨more, rfl⟩ := h
  exact follows_closing bracket more

/-- The inside of a bracket is followed by its closing one, so that it is all that may come. -/
theorem determined_enclosed {close : Reader Unit} (hclose : Closes close) {bracket : Bracket}
    {inner : Nat → Reader α} {text : List Char}
    (hinner : ∀ budget, Determined (ClosedBy bracket) (inner budget) text) (budget : Nat)
    (opening : Char) :
    Determined may (enclosed close inner budget) (opening :: (text ++ [bracket.closing])) := by
  cases budget with
  | zero => exact determined_failNext _ _
  | succ budget =>
    refine Determined.advance ?_ opening
    obtain ⟨outcome, houtcome⟩ := hinner budget
    have hrun : ∀ rest, inner budget (text ++ [bracket.closing] ++ rest) =
        followedBy rest (followedBy [bracket.closing] outcome) := by
      intro rest
      rw [List.append_assoc, houtcome ([bracket.closing] ++ rest) ⟨rest, rfl⟩, followedBy_append]
    cases outcome with
    | ok result =>
      have hread : ∀ rest, may rest →
          (inner budget (text ++ [bracket.closing] ++ rest)).mapError (settledBy close) =
            .ok (result.1, result.2 ++ [bracket.closing] ++ rest) := by
        intro rest _
        rw [hrun rest]
        rfl
      apply determined_bind_ok hread
      exact ((hclose _ (halts_closing _ bracket)).imp fun _ _ ↦ trivial).map _
    | error failure =>
      have hhalts : Halts (failure.rest ++ [bracket.closing]) := halts_closing _ bracket
      obtain ⟨settled, hsettled⟩ := hclose.exists_settled
        { failure with rest := failure.rest ++ [bracket.closing] } hhalts
      apply determined_bind_error settled
      intro rest _
      rw [hrun rest]
      exact congrArg Except.error (hsettled rest)

/-! ## Loops -/

namespace Loop

variable {step : σ → Reader (σ ⊕ α)} {piece : Bool → γ → List Char} {isFirst : σ → Bool}
  {absorbs : γ → σ → σ → Prop} {finish : σ → α} {bracket : Bracket} {xs : List γ}

/-- The first pieces of a loop fail in the same way whatever follows them, or else bring it to the
same state. -/
theorem front (loop : Loop step piece isFirst absorbs finish bracket)
    (hpiece : ∀ x ∈ xs, ∀ s, Determined Follows (step s) (piece (isFirst s) x)) (s : σ) :
    (∃ failure, ∀ rounds rest, xs.length ≤ rounds → (xs ≠ [] → Follows rest) →
      repeatFor step rounds s (piecesFrom piece (isFirst s) xs ++ rest) =
        followedBy rest (.error failure)) ∨
    ∃ t, isFirst t = (isFirst s && xs.isEmpty) ∧
      ∀ rounds rest, (xs ≠ [] → Follows rest) →
        repeatFor step (xs.length + rounds) s (piecesFrom piece (isFirst s) xs ++ rest) =
          repeatFor step rounds t rest := by
  induction xs generalizing s with
  | nil =>
    refine .inr ⟨s, (Bool.and_true _).symm, fun rounds rest _ ↦ ?_⟩
    rw [List.length_nil, Nat.zero_add]
    rfl
  | cons x xs ih =>
    obtain ⟨hx, hxs⟩ := List.forall_mem_cons.mp hpiece
    have htext (rest : List Char) : piecesFrom piece (isFirst s) (x :: xs) ++ rest =
        piece (isFirst s) x ++ (piecesFrom piece false xs ++ rest) := by
      rw [piecesFrom, List.append_assoc]
    rcases (hx s).whole (loop.takes s x) with ⟨_, ⟨next, hnext, rfl⟩, hread⟩ | ⟨failure, hfailure⟩
    · have hfirst : isFirst next = false := loop.continues x s next hnext
      have hround (rounds : Nat) {rest : List Char} (hrest : Follows rest) :
          repeatFor step (rounds + 1) s (piecesFrom piece (isFirst s) (x :: xs) ++ rest) =
            repeatFor step rounds next (piecesFrom piece (isFirst next) xs ++ rest) := by
        rw [htext, hfirst]
        exact repeatFor_inl (hread _ (loop.follows_append xs hrest)) rounds
      rcases ih hxs next with ⟨failure, hfailure⟩ | ⟨t, htfirst, ht⟩
      · refine .inl ⟨failure, ?_⟩
        intro rounds rest hrounds hrest
        have hfollows := hrest (List.cons_ne_nil x xs)
        obtain ⟨fewer, rfl⟩ := Nat.exists_eq_add_of_le' (Nat.zero_lt_of_lt hrounds)
        rw [hround fewer hfollows]
        exact hfailure fewer rest (Nat.le_of_succ_le_succ hrounds) fun _ ↦ hfollows
      · rw [hfirst, Bool.false_and] at htfirst
        refine .inr ⟨t, by simp [htfirst], ?_⟩
        intro rounds rest hrest
        have hfollows := hrest (List.cons_ne_nil x xs)
        rw [List.length_cons, Nat.add_right_comm, hround _ hfollows]
        exact ht rounds rest fun _ ↦ hfollows
    · refine .inl ⟨{ failure with rest := failure.rest ++ piecesFrom piece false xs }, ?_⟩
      intro rounds rest hrounds hrest
      obtain ⟨fewer, rfl⟩ := Nat.exists_eq_add_of_le' (Nat.zero_lt_of_lt hrounds)
      have hfollows := loop.follows_append xs (hrest (List.cons_ne_nil x xs))
      rw [htext, repeatFor, bind_apply, hfailure _ hfollows, followedBy_append]
      rfl

/-- The number of rounds that are granted depends only on the length of the text. -/
theorem exists_rounds (loop : Loop step piece isFirst absorbs finish bracket) (xs : List γ)
    {start : σ} (hstart : isFirst start = true) (length : Nat) :
    ∃ rounds, ∀ rest : List Char, rest.length = length →
      repeatFrom start step (piecesFrom piece true xs ++ rest) =
        repeatFor step (xs.length + (rounds + 1)) start
          (piecesFrom piece (isFirst start) xs ++ rest) := by
  have hlength := loop.length_le true xs
  refine ⟨(piecesFrom piece true xs).length - xs.length + length + 1, ?_⟩
  intro rest hrest
  have hrounds : (piecesFrom piece true xs ++ rest).length + 2 =
      xs.length + ((piecesFrom piece true xs).length - xs.length + length + 1 + 1) := by
    rw [List.length_append, hrest]
    omega
  rw [repeatFrom, bind_apply, get_apply, hstart]
  exact congrArg (fun n ↦ repeatFor step n start _) hrounds

/-- Pieces that can be absorbed bring the loop to the state that they make. -/
theorem repeatFor_absorbed (loop : Loop step piece isFirst absorbs finish bracket) {s t : σ}
    (h : Absorbed absorbs xs s t) :
    isFirst t = (isFirst s && xs.isEmpty) ∧
      ∀ rounds rest, (xs ≠ [] → Follows rest) →
        repeatFor step (xs.length + rounds) s (piecesFrom piece (isFirst s) xs ++ rest) =
          repeatFor step rounds t rest := by
  induction xs generalizing s with
  | nil =>
    obtain rfl : s = t := h
    refine ⟨(Bool.and_true _).symm, fun rounds rest _ ↦ ?_⟩
    rw [List.length_nil, Nat.zero_add]
    rfl
  | cons x xs ih =>
    obtain ⟨next, hnext, hlater⟩ := h
    obtain ⟨hfirst, hrun⟩ := ih hlater
    have hcontinues := loop.continues x s next hnext
    rw [hcontinues, Bool.false_and] at hfirst
    refine ⟨by rw [hfirst, List.isEmpty_cons, Bool.and_false], fun rounds rest hrest ↦ ?_⟩
    have hfollows := hrest (List.cons_ne_nil x xs)
    have hround := (loop.takes s x _ (loop.follows_append xs hfollows) _ _).mpr
      ⟨⟨next, hnext, rfl⟩, rfl⟩
    rw [List.length_cons, Nat.add_right_comm, piecesFrom, List.append_assoc,
      repeatFor_inl hround, ← hcontinues]
    exact hrun rounds rest fun _ ↦ hfollows

/-- A loop that fails at a piece has taken those before it. -/
theorem repeatFrom_of_error (loop : Loop step piece isFirst absorbs finish bracket) {start t : σ}
    (hstart : isFirst start = true) (h : Absorbed absorbs xs start t) {rest : List Char}
    (hrest : xs ≠ [] → Follows rest) {failure : Failure} (hstep : step t rest = .error failure) :
    repeatFrom start step (piecesFrom piece true xs ++ rest) = .error failure := by
  obtain ⟨rounds, hrounds⟩ := loop.exists_rounds xs hstart rest.length
  rw [hrounds rest rfl, (loop.repeatFor_absorbed h).2 (rounds + 1) rest hrest]
  exact repeatFor_of_error hstep rounds

/-- The whole loop is indifferent if each of its rounds is. -/
theorem determined (loop : Loop step piece isFirst absorbs finish bracket)
    (hpiece : ∀ x ∈ xs, ∀ s, Determined Follows (step s) (piece (isFirst s) x)) {start : σ}
    (hstart : isFirst start = true) :
    Determined (ClosedBy bracket) (repeatFrom start step) (piecesFrom piece true xs) := by
  rcases loop.front hpiece start with ⟨failure, hfailure⟩ | ⟨t, -, ht⟩
  · refine ⟨.error failure, ?_⟩
    intro rest hrest
    obtain ⟨rounds, hrounds⟩ := loop.exists_rounds xs hstart rest.length
    rw [hrounds rest rfl]
    exact hfailure _ rest (Nat.le_add_right _ _) fun _ ↦ hrest.follows
  · refine ⟨.ok (finish t, []), ?_⟩
    intro rest hrest
    obtain ⟨rounds, hrounds⟩ := loop.exists_rounds xs hstart rest.length
    rw [hrounds rest rfl, ht _ rest fun _ ↦ hrest.follows]
    obtain ⟨more, rfl⟩ := hrest
    exact repeatFor_inr (loop.closes t more) rounds

end Loop

/-- Items are read one by one, as far as they can be. -/
theorem determined_items {item : Reader α} {means : Document → α → Prop}
    (hmeans : ∀ d : Document, Decides item d.compact (means d))
    (h : ∀ d : Document, Determined Follows item d.compact) (ds : List Document) :
    Determined (ClosedBy .list) (items item) (Document.itemsFrom true ds) := by
  rw [items_eq, itemsFrom_eq_piecesFrom]
  refine (loop_itemStep hmeans).determined ?_ rfl
  intro d _ done
  have hmore (rest : List Char) : anotherItem done.isEmpty
      (separator done.isEmpty ++ d.compact ++ rest) = .ok (true, d.compact ++ rest) := by
    rw [List.append_assoc]
    exact anotherItem_value done.isEmpty (d.startsValue_compact.append rest)
  exact determined_bind_ok (fun rest _ ↦ hmore rest) ((h d).map _)

/-- The members of an object are read in the same way whatever follows them if each of the known
ones is. -/
theorem determined_memberStep {member : String → σ → Option (Reader σ)}
    (h : ∀ key draft read, member key draft = some read → ∀ d : Document,
      Determined Follows read (':' :: d.compact)) (entry : String × Document)
    (state : Bool × σ) :
    Determined Follows (memberStep member state) (memberChars state.1 entry) := by
  have hkey (rest : List Char) : anotherKey state.1 (memberChars state.1 entry ++ rest) =
      .ok (some entry.1, (':' :: entry.2.compact) ++ rest) := by
    rw [memberChars, List.append_assoc]
    exact anotherKey_string state.1 entry.1 _
  apply determined_bind_ok fun rest _ ↦ hkey rest
  dsimp only
  cases hmember : member entry.1 state.2 with
  | some read => exact (h entry.1 state.2 read hmember entry.2).map _
  | none =>
    apply determined_bind_ok fun rest _ ↦ colon_cons (entry.2.compact ++ rest)
    refine ⟨.ok (.inl (false, state.2), []), ?_⟩
    intro rest hrest
    rw [bind_apply, skipValue_compact entry.2 hrest]
    rfl

/-- Members are read one by one, whether their keys are known or not. -/
theorem determined_members {member : String → σ → Option (Reader σ)}
    {absorbs : String × Document → σ → σ → Prop} (hfills : Fills member absorbs)
    (h : ∀ key draft read, member key draft = some read → ∀ d : Document,
      Determined Follows read (':' :: d.compact)) (start : σ)
    (entries : List (String × Document)) :
    Determined (ClosedBy .object) (members start member) (Document.membersFrom true entries) := by
  rw [members_eq, membersFrom_eq_piecesFrom]
  exact (loop_memberStep hfills).determined
    (fun entry _ state ↦ determined_memberStep h entry state) rfl

/-- A field that comes again is refused at its colon. -/
theorem determined_once {key : String} {earlier : Option α} {read : Reader α} {d : Document}
    (h : Determined Follows read d.compact) :
    Determined Follows (once key earlier read) (':' :: d.compact) := by
  cases earlier with
  | some a => exact ⟨.error ⟨.mismatch (.fieldTwice key), ':' :: d.compact, none⟩, fun _ _ ↦ rfl⟩
  | none =>
    obtain ⟨outcome, houtcome⟩ := h
    refine ⟨outcome, ?_⟩
    intro rest hrest
    rw [List.cons_append, once_none, houtcome rest hrest]

/-- One position of a record that is written as a list, and what is read after it. -/
theorem determined_place {title : String} {count position : Nat} {read : Reader α}
    {means : Document → α → Prop} (hmeans : ∀ d : Document, Decides read d.compact (means d))
    (h : ∀ d : Document, Determined Follows read d.compact) {f : α → Reader β}
    (hf : ∀ a ds, Determined (ClosedBy .list) (f a) (Document.itemsFrom false ds))
    (ds : List Document) :
    Determined (ClosedBy .list) (place title count position read >>= f)
      (Document.itemsFrom (position == 0) ds) := by
  cases ds with
  | nil =>
    apply determined_bind_error ⟨.mismatch (.wrongLength position title count), [], none⟩
    intro rest hrest
    obtain ⟨more, rfl⟩ := hrest
    have hclose := anotherItem_close (position == 0) more
    rw [place, bind_apply, Document.itemsFrom, List.nil_append, Bracket.closing, hclose]
    rfl
  | cons d ds =>
    have hfollows (rest : List Char) (hrest : ClosedBy .list rest) :
        Follows (Document.itemsFrom false ds ++ rest) := by
      obtain ⟨more, rfl⟩ := hrest
      exact follows_itemsFrom ds more
    have hread : Determined (ClosedBy .list) (read >>= f)
        (d.compact ++ Document.itemsFrom false ds) :=
      (h d).bind_decided (hmeans d) hfollows fun a _ ↦ hf a ds
    obtain ⟨outcome, houtcome⟩ := hread
    refine ⟨outcome, ?_⟩
    intro rest hrest
    have hvalue := d.startsValue_compact.append (Document.itemsFrom false ds ++ rest)
    rw [← houtcome rest hrest, itemsFrom_append, bind_apply, bind_apply,
      place_value _ _ _ _ hvalue, List.append_assoc]

theorem determined_floating (negative : Bool) (significand : Nat) (exponent : Int)
    (text : List Char) : Determined may (floating negative significand exponent) text := by
  unfold floating
  split
  · exact determined_pure _ text
  · exact determined_failHere _ text

/-- A numeral in a document has a character behind it that does not continue it. -/
theorem determined_number (negative : Bool) (whole : Nat) (places : List (Fin 10))
    (exponent : Option Int) :
    Determined Follows (number negative)
      (Nat.toDigits 10 whole ++ (placeChars places ++ exponentChars exponent)) := by
  have hwhole (rest : List Char) (hrest : Follows rest) :
      wholePart (.unfinished .value)
          (Nat.toDigits 10 whole ++ (placeChars places ++ exponentChars exponent) ++ rest) =
        .ok (Nat.toDigits 10 whole, placeChars places ++ exponentChars exponent ++ rest) := by
    have hends := endsDigits_placeChars places exponent hrest.endsNumeral
    rw [List.append_assoc, List.append_assoc]
    exact wholePart_toDigits _ whole hends
  obtain ⟨placesRead, hplaces⟩ := decimalPlaces_placeChars (.unfinished .value) places exponent
  obtain ⟨exponentRead, hexponent⟩ := exponentPart_exponentChars (.unfinished .value) exponent
  have hplaces' (rest : List Char) (hrest : Follows rest) :
      decimalPlaces (.unfinished .value) (placeChars places ++ exponentChars exponent ++ rest) =
        .ok (placesRead, exponentChars exponent ++ rest) := by
    rw [List.append_assoc]
    exact hplaces hrest.endsNumeral
  have hexponent' (rest : List Char) (hrest : Follows rest) :
      exponentPart (.unfinished .value) (exponentChars exponent ++ rest) =
        .ok (exponentRead, [] ++ rest) := hexponent hrest.endsNumeral
  apply determined_bind_ok hwhole
  apply determined_bind_ok hplaces'
  apply determined_bind_ok hexponent'
  dsimp only
  split
  · split
    · split
      · exact determined_pure _ _
      · split
        · exact determined_pure _ _
        · exact determined_pure _ _
    · exact determined_floating _ _ _ _
  · split
    · exact determined_floating _ _ _ _
    · split
      · exact determined_pure _ _
      · -- The digits that were not needed are put back before the failure is reported.
        exact ⟨.error ⟨_, _, _⟩, fun _ _ ↦ rfl⟩

theorem takesBack_string_quoted (value : String) :
    TakesBack (advance >>= fun _ ↦ string) (stringChars value) value := by
  intro rest
  simpa [stringChars] using takesBack_string value rest

theorem found_digit {c : Char} (hc : c.isDigit = true) (text : List Char) :
    found (c :: text) = (number false >>= fun n ↦ pure (Found.number n)) (c :: text) := by
  rw [found, bind_apply, peek_apply]
  dsimp only [List.head?_cons]
  generalize hnext : some c = next
  split
  iterate 7
    obtain rfl := Option.some.inj hnext
    simp at hc
  · obtain rfl := Option.some.inj hnext
    rw [if_pos hc]
  · cases hnext

theorem determined_found_number (value : Numeral) : Determined Follows found value.chars := by
  have hchars : value.chars = (if value.negative then ['-'] else []) ++
      (Nat.toDigits 10 value.whole ++
        (placeChars value.places ++ exponentChars value.exponent)) := by
    simp [Numeral.chars, placeChars, exponentChars]
  have hnumber := fun negative ↦
    (determined_number negative value.whole value.places value.exponent).map Found.number
  rw [hchars]
  cases value.negative with
  | true => exact ((hnumber true).advance '-').congr fun _ _ ↦ rfl
  | false =>
    obtain ⟨c, others, hdigits, hc⟩ := head_toDigits_isDigit value.whole
    refine (hnumber false).congr ?_
    intro rest _
    rw [hdigits]
    exact found_digit hc _

/-- What is found in place of something else can be told from its own text. -/
theorem determined_found (d : Document) : Determined Follows found d.compact := by
  cases d with
  | null => exact ⟨.ok (.null, []), fun _ _ ↦ rfl⟩
  | boolean value =>
    cases value with
    | true => exact ⟨.ok (.boolean true, []), fun _ _ ↦ rfl⟩
    | false => exact ⟨.ok (.boolean false, []), fun _ _ ↦ rfl⟩
  | number value =>
    rw [Document.compact]
    exact determined_found_number value
  | string value =>
    rw [Document.compact]
    exact (takesBack_string_quoted value).determined.map Found.string
  | array items => exact ⟨.ok (.list, (Document.array items).compact), fun _ _ ↦ by
      rw [Document.compact]
      rfl⟩
  | object members => exact ⟨.ok (.object, (Document.object members).compact), fun _ _ ↦ by
      rw [Document.compact]
      rfl⟩

/-- So the message about it is the same whatever follows. -/
theorem determined_wrongType (expected : String) (d : Document) :
    Determined Follows (wrongType expected : Reader α) d.compact :=
  (determined_found d).bind fun _ _ ↦ determined_failHere _ _

/-- A document is read if it starts as it should, and told otherwise. -/
theorem determined_demanded {c : Char} {r : Reader α} {d : Document}
    (h : d.initial = c → Determined Follows r d.compact) (expected : String) :
    Determined Follows (demand >>= fun next ↦ if next = c then r else wrongType expected)
      d.compact := by
  apply determined_bind_ok fun rest _ ↦ demand_compact d rest
  split
  · rename_i hc
    exact h hc
  · exact determined_wrongType expected d

theorem determined_stringValue (d : Document) : Determined Follows stringValue d.compact := by
  apply determined_demanded
  intro hquote
  obtain ⟨value, rfl⟩ := Document.initial_eq_quote_iff.mp hquote
  rw [Document.compact]
  exact (takesBack_string_quoted value).determined

theorem determined_nullValue (d : Document) : Determined Follows nullValue d.compact := by
  apply determined_demanded
  intro hnull
  obtain rfl := Document.initial_eq_n_iff.mp hnull
  exact (takesBack_word "null".toList).determined

section Variants

variable {choices : List (String × Payload α)}

theorem determined_chosen (name : String) (text : List Char) :
    Determined may (chosen choices name) text := by
  unfold chosen
  split
  · exact determined_pure _ text
  · exact determined_failHere _ text

/-- What is wrong behind the payload can be told before the end of the text. -/
theorem determined_closeVariant (value : α) {text : List Char} (h : Halts text) :
    Determined may (closeVariant value) text := by
  obtain ⟨c, left, hnext, -⟩ := h.exists_upcoming
  apply determined_bind_ok fun rest _ ↦ hnext rest
  split
  · exact (determined_advance c left).map _
  · exact determined_failHere _ _
  · exact determined_failHere _ _

/-- An object with a first member, which decides what the variant is. -/
theorem determined_taggedVariant
    (hmeans : ∀ name payload, choices.lookup name = some payload → ∀ budget d,
      ∃ means, Decides (payload.value budget) (Document.compact d) means)
    (h : ∀ name payload, choices.lookup name = some payload → ∀ budget d,
      Determined Follows (payload.value budget) (Document.compact d))
    (name : String) (value : Document) (others : List (String × Document)) (budget : Nat) :
    Determined Follows (taggedVariant choices (budget + 1))
      ('\x7b' :: (Document.membersFrom true ((name, value) :: others) ++ ['\x7d'])) := by
  have htext (rest : List Char) :
      '\x7b' :: (Document.membersFrom true ((name, value) :: others) ++ ['\x7d']) ++ rest =
        '\x7b' :: stringChars name ++ ':' ::
          (value.compact ++ (Document.membersFrom false others ++ ['\x7d']) ++ rest) := by
    simp [Document.membersFrom, separator]
  cases hchoice : choices.lookup name with
  | none =>
    refine ⟨.error ⟨.mismatch (.unknownVariant name (choices.map (·.1))),
      ':' :: (value.compact ++ (Document.membersFrom false others ++ ['\x7d'])), some 0⟩, ?_⟩
    intro rest _
    rw [htext, taggedVariant_string, hchoice]
    rfl
  | some payload =>
    obtain ⟨means, hvalueMeans⟩ := hmeans name payload hchoice budget value
    have hends : Halts (Document.membersFrom false others ++ ['\x7d']) := halts_closing _ .object
    have hfollows (rest : List Char) :
        Follows (Document.membersFrom false others ++ ['\x7d'] ++ rest) := by
      rw [List.append_assoc]
      exact follows_membersFrom others rest
    have hvalue : Determined Follows (payload.value budget >>= closeVariant)
        (value.compact ++ (Document.membersFrom false others ++ ['\x7d'])) :=
      (h name payload hchoice budget value).bind_decided hvalueMeans
        (fun rest _ ↦ hfollows rest) fun a _ ↦ determined_closeVariant a hends
    obtain ⟨outcome, houtcome⟩ := hvalue
    refine ⟨outcome, ?_⟩
    intro rest hrest
    rw [htext, taggedVariant_string, hchoice]
    exact houtcome rest hrest

theorem determined_variant_object
    (hmeans : ∀ name payload, choices.lookup name = some payload → ∀ budget d,
      ∃ means, Decides (payload.value budget) (Document.compact d) means)
    (h : ∀ name payload, choices.lookup name = some payload → ∀ budget d,
      Determined Follows (payload.value budget) (Document.compact d))
    (members : List (String × Document)) (budget : Nat) :
    Determined Follows (variant choices budget) (Document.object members).compact := by
  apply determined_bind_ok fun rest _ ↦ upcoming_compact (.object members) rest
  have hcompact := compact_object_append members []
  rw [List.append_nil] at hcompact
  change Determined Follows (taggedVariant choices budget) _
  rw [hcompact]
  match budget, members with
  | 0, _ => exact determined_failNext _ _
  | budget + 1, [] =>
    have hnext (rest : List Char) : upcoming (['\x7d'] ++ rest) =
        .ok (some '\x7d', ['\x7d'] ++ rest) := upcoming_cons (by decide) rest
    refine Determined.advance ?_ '\x7b'
    apply determined_bind_ok fun rest _ ↦ hnext rest
    exact determined_failNext _ _
  | budget + 1, (name, value) :: others =>
    exact determined_taggedVariant hmeans h name value others budget

/-- A variant is a string, an object or something else, and each is told from its own text. -/
theorem determined_variant
    (hmeans : ∀ name payload, choices.lookup name = some payload → ∀ budget d,
      ∃ means, Decides (payload.value budget) (Document.compact d) means)
    (h : ∀ name payload, choices.lookup name = some payload → ∀ budget d,
      Determined Follows (payload.value budget) (Document.compact d))
    (d : Document) (budget : Nat) : Determined Follows (variant choices budget) d.compact := by
  by_cases hbrace : d.initial = '\x7b'
  · obtain ⟨members, rfl⟩ := Document.initial_eq_brace_iff.mp hbrace
    exact determined_variant_object hmeans h members budget
  · apply determined_bind_ok fun rest _ ↦ upcoming_compact d rest
    by_cases hquote : d.initial = '"'
    · obtain ⟨name, rfl⟩ := Document.initial_eq_quote_iff.mp hquote
      have hstring (rest : List Char) : string (name.toList.flatMap escaped ++ ['"'] ++ rest) =
          .ok (name, [] ++ rest) := takesBack_string name rest
      rw [Document.compact]
      refine Determined.advance ?_ '"'
      apply determined_bind_ok fun rest _ ↦ hstring rest
      apply (determined_chosen name []).bind
      intro payload left
      cases payload with
      | nothing value => exact determined_pure value left
      | carried read => exact determined_mismatch _ left
    · split
      · rename_i hnext
        exact absurd (Option.some.inj hnext) hbrace
      · rename_i hnext
        exact absurd (Option.some.inj hnext) hquote
      · exact determined_failNext _ _
      · exact determined_failNext _ _

end Variants

theorem determined_enclosed_list {inner : Nat → Reader α} {items : List Document}
    (h : ∀ budget, Determined (ClosedBy .list) (inner budget) (Document.itemsFrom true items))
    (budget : Nat) : Determined may (enclosed closeList inner budget)
      (Document.array items).compact := by
  have hcompact := compact_array_append items []
  rw [List.append_nil] at hcompact
  rw [hcompact]
  exact determined_enclosed closes_closeList h budget '['

theorem determined_enclosed_object {inner : Nat → Reader α} {members : List (String × Document)}
    (h : ∀ budget,
      Determined (ClosedBy .object) (inner budget) (Document.membersFrom true members))
    (budget : Nat) : Determined may (enclosed closeObject inner budget)
      (Document.object members).compact := by
  have hcompact := compact_object_append members []
  rw [List.append_nil] at hcompact
  rw [hcompact]
  exact determined_enclosed closes_closeObject h budget '\x7b'

/-- Both forms of a record end at a bracket of their own. -/
theorem determined_record {title : String} {named positional : Nat → Reader α}
    (hnamed : ∀ members budget,
      Determined (ClosedBy .object) (named budget) (Document.membersFrom true members))
    (hpositional : ∀ items budget,
      Determined (ClosedBy .list) (positional budget) (Document.itemsFrom true items))
    (d : Document) (budget : Nat) :
    Determined Follows (record title named positional budget) d.compact := by
  apply determined_bind_ok fun rest _ ↦ demand_compact d rest
  split
  · rename_i hbrace
    obtain ⟨members, rfl⟩ := Document.initial_eq_brace_iff.mp hbrace
    exact determined_enclosed_object (hnamed members) budget
  · rename_i hbracket
    obtain ⟨items, rfl⟩ := Document.initial_eq_bracket_iff.mp hbracket
    exact determined_enclosed_list (hpositional items) budget
  · exact determined_wrongType _ d

end BLTree.Json.Reader

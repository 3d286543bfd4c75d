import BLTree.Proofs.Json.Fronts
import BLTree.Proofs.Json.ProgramConformance
import Mathlib.Data.List.TakeWhile

/-!
# How far readers look

Every reader of the file format gives its value for a front of the text, of which it needs to know
nothing of what follows, or for a number no more than the next character. Said of every text and not
only of those that are written for some value, this takes in blanks, escapes and members that are
passed over. It follows that what is read inside of a text could be cut out and read on its own, and
that what is read on its own is read in the same way inside of a text.
-/

namespace BLTree

namespace Json.Reader

variable {α σ : Type} {outlook : Outlook}

/-- Four digits are read, and nothing behind them is looked at. -/
theorem takes_hexQuad : Takes outlook hexQuad := by
  intro text n rest hrun
  obtain ⟨digits, hdigits⟩ := exists_mapM_of_hexQuad hrun
  have hlong : ¬ byteLength (text.take 4) < 4 := by
    intro hshort
    rw [hexQuad, if_pos hshort] at hrun
    cases hrun
  have hlength : (text.take 4).length = 4 := by
    rw [byteLength_of_mapM_hexDigit? hdigits] at hlong
    rw [List.length_take] at hlong ⊢
    omega
  rw [hexQuad, if_neg hlong, hdigits] at hrun
  obtain ⟨rfl, rfl⟩ := Prod.mk.inj (Except.ok.inj hrun)
  refine ⟨text.take 4, List.ne_nil_of_length_eq_add_one hlength,
    (List.take_append_drop 4 text).symm, fun more _ ↦ ?_⟩
  have htake : (text.take 4 ++ more).take 4 = text.take 4 := List.take_left' hlength
  have hdrop : (text.take 4 ++ more).drop 4 = more := List.drop_left' hlength
  simp only [hexQuad, htake, hdrop, if_neg hlong, hdigits]

theorem takes_pairMark (c : Char) : Takes outlook (pairMark c) := by
  apply takes_peek (gives_failHere _)
  intro d
  dsimp only
  split
  · exact confinedPast_advance d
  · exact (gives_failNext _).past d

/-- A second escape is read only if the first is the upper half of a pair. -/
theorem takes_numberedChar : Takes outlook numberedChar := by
  apply takes_hexQuad.bind
  intro first
  split
  · exact (gives_failHere _).confined
  · split
    · apply (takes_pairMark '\\').confined.bind
      intro _
      apply (takes_pairMark 'u').confined.bind
      intro _
      apply takes_hexQuad.confined.bind
      intro second
      split
      · exact confined_pure _
      · exact (gives_failHere _).confined
    · exact confined_pure _

theorem takes_escape : Takes outlook escape := by
  apply takes_peek (gives_failHere _)
  intro c
  split
  · exact (gives_failHere _).past c
  · exact takes_numberedChar.confined.advance c
  · split
    · exact (confined_pure _).advance c
    · exact (gives_failNext _).past c

/-- Each round takes a character, an escape or the closing quote. -/
theorem takes_stringStep (done : List Char) : Takes outlook (stringStep done) := by
  apply takes_peek (gives_failHere _)
  intro c
  split
  · exact (gives_failHere _).past c
  · exact (confined_pure _).advance c
  · exact (takes_escape.confined.map _).advance c
  · split
    · exact (gives_failNext _).past c
    · exact (confined_pure _).advance c

theorem takes_string : Takes outlook string := takes_repeatFrom takes_stringStep []

/-- A string ends at its closing quote. -/
theorem takes_stringValue : Takes outlook stringValue := by
  apply takes_demand
  intro c
  split
  · exact takes_string.confined.advance c
  · exact (gives_wrongType _).past c

theorem takes_skipEscape : Takes outlook skipEscape := by
  apply takes_peek (gives_failHere _)
  intro c
  split
  · exact (gives_failHere _).past c
  · exact (takes_hexQuad.confined.map _).advance c
  · split
    · exact confinedPast_advance c
    · exact (gives_failNext _).past c

theorem takes_skipString : Takes outlook skipString := by
  refine takes_repeatFrom (fun _ ↦ ?_) ()
  apply takes_peek (gives_failHere _)
  intro c
  split
  · exact (gives_failHere _).past c
  · exact (confined_pure _).advance c
  · exact (takes_skipEscape.confined.map _).advance c
  · split
    · exact (gives_failHere _).past c
    · exact (confined_pure _).advance c

/-- Digits go on as long as they can, so one character behind them is looked at. -/
theorem confined_digits : Confined .next digits := by
  intro text found rest hrun
  obtain ⟨rfl, rfl⟩ := Prod.mk.inj (Except.ok.inj hrun)
  refine ⟨text.takeWhile Char.isDigit, List.takeWhile_append_dropWhile.symm, fun more hmore ↦ ?_⟩
  obtain ⟨htake, hdrop⟩ := dropWhile_append_of_same hmore
  change Except.ok ((text.takeWhile Char.isDigit ++ more).takeWhile Char.isDigit,
    (text.takeWhile Char.isDigit ++ more).dropWhile Char.isDigit) = _
  rw [htake, hdrop]

theorem digits_cons {c : Char} (hc : c.isDigit = true) (text : List Char) :
    digits (c :: text) = (digits >>= fun found ↦ pure (c :: found)) text := by
  simp [digits, hc]

/-- A leading zero stands alone, which shows in the next character. -/
theorem takes_wholePart (unfinished : Cause) : Takes .next (wholePart unfinished) := by
  apply takes_peek (gives_failHere _)
  intro c
  split
  · exact (gives_failHere _).past c
  · refine Confined.advance ?_ c
    apply confined_peek.bind
    intro next
    split
    · exact (gives_failNext _).confined
    · exact confined_pure _
  · rename_i d _ hd
    cases hd
    split
    · rename_i hc
      simp only [ConfinedPast, digits_cons hc]
      exact confined_digits.map _
    · exact (gives_failNext _).past c

theorem confined_decimalPlaces (unfinished : Cause) :
    Confined .next (decimalPlaces unfinished) := by
  apply confined_peek.bind
  intro next
  split
  · apply confined_advance.bind
    intro _
    apply confined_digits.bind
    intro places
    split
    · exact ((gives_any peek).bind fun _ _ ↦ gives_failNext _).confined
    · exact confined_pure _
  · exact confined_pure _

/-- An exponent may have a sign, and it has at least one digit. -/
theorem confined_exponentPart (unfinished : Cause) : Confined .next (exponentPart unfinished) := by
  apply confined_peek.bind
  intro next
  split
  · apply confined_advance.bind
    intro _
    apply confined_peek.bind
    intro sign
    extract_lets afterSign
    have hdigits (u : PUnit) : Confined .next (afterSign u) := by
      apply confined_peek.bind
      intro next
      split
      · exact (gives_failHere _).confined
      · split
        · exact confined_digits.map _
        · exact (gives_failNext _).confined
    split
    · exact confined_advance.bind hdigits
    · exact hdigits ()
  · exact confined_pure _

/-- A number that is passed over ends where a number that is read does. -/
theorem takes_skipNumber : Takes .next skipNumber := by
  apply (takes_wholePart _).bind
  intro _
  apply (confined_decimalPlaces _).bind
  intro _
  exact (confined_exponentPart _).map _

/-- A colon is the last character that is looked at. -/
theorem takes_colon : Takes outlook colon := by
  apply takes_upcoming (gives_failNext _)
  intro c
  split
  · exact confinedPast_advance c
  · exact (gives_failNext _).past c
  · exact (gives_failNext _).past c

/-- A bracket is closed by one character, and what is behind it does not matter. -/
theorem takes_closeList : Takes outlook closeList := by
  apply takes_upcoming (gives_failNext _)
  intro c
  split
  · exact confinedPast_advance c
  · refine Gives.past ?_ c
    exact (gives_any advance).bind fun _ _ ↦ (gives_any upcoming).bind fun _ _ ↦ gives_failNext _
  · exact (gives_failNext _).past c
  · exact (gives_failNext _).past c

theorem takes_closeObject : Takes outlook closeObject := by
  apply takes_upcoming (gives_failNext _)
  intro c
  split
  · exact confinedPast_advance c
  · exact (gives_failNext _).past c
  · exact (gives_failNext _).past c
  · exact (gives_failNext _).past c

/-- Behind a comma the next item is looked for, but not read. -/
theorem confined_anotherItem (first : Bool) : Confined .next (anotherItem first) := by
  apply confined_upcoming.bind
  intro next
  split
  · exact (gives_failNext _).confined
  · split
    · exact confined_pure false
    split
    · exact confined_pure true
    split
    · apply confined_advance.bind
      intro _
      apply confined_upcoming.bind
      intro later
      split
      · exact (gives_failNext _).confined
      · exact confined_pure true
      · exact (gives_failNext _).confined
    · exact (gives_failNext _).confined

theorem takes_key (c : Char) : Takes .next (anotherKey.key c) := by
  unfold anotherKey.key
  split
  · exact confined_advance.bind_takes fun _ ↦ takes_string.map _
  · exact (gives_failNext _).takes

theorem confined_anotherKey (first : Bool) : Confined .next (anotherKey first) := by
  apply confined_upcoming.bind
  intro next
  split
  · exact (gives_failNext _).confined
  · split
    · exact confined_pure none
    split
    · exact (takes_key _).confined
    split
    · apply confined_advance.bind
      intro _
      apply confined_upcoming.bind
      intro later
      split
      · exact (gives_failNext _).confined
      · exact (takes_key _).confined
      · exact (gives_failNext _).confined
    · exact (gives_failNext _).confined

/-- A key has quotes around it, so something is read with it. -/
theorem advances_anotherKey (first : Bool) :
    Advances (anotherKey first) fun key ↦ key.isSome = true := by
  apply confined_upcoming.bind_advances
  intro next
  split
  · exact (gives_failNext _).advances
  · split
    · exact advances_pure (by decide)
    split
    · exact (takes_key _).advances
    split
    · apply confined_advance.bind_advances
      intro _
      apply confined_upcoming.bind_advances
      intro later
      split
      · exact (gives_failNext _).advances
      · exact (takes_key _).advances
      · exact (gives_failNext _).advances
    · exact (gives_failNext _).advances

theorem confined_skipKey (bracket : Bracket) : Confined outlook (skipKey bracket) := by
  cases bracket with
  | list => exact confined_pure ()
  | object =>
    refine (takes_upcoming (gives_failNext _) fun c ↦ ?_).confined
    split
    · refine Confined.advance ?_ c
      exact takes_skipString.confined.bind fun _ ↦ takes_colon.confined
    · exact (gives_failNext _).past c
    · exact (gives_failNext _).past c

/-- All brackets that end here are closed, up to the next comma. -/
theorem confined_skipClosings (brackets : List Bracket) :
    Confined .next (skipClosings brackets) := by
  induction brackets with
  | nil => exact confined_pure []
  | cons bracket others ih =>
    apply confined_upcoming.bind
    intro next
    split
    · exact (gives_failNext _).confined
    · split
      · apply confined_advance.bind
        intro _
        exact (confined_skipKey bracket).map _
      split
      · exact confined_advance.bind fun _ ↦ ih
      · exact (gives_failNext _).confined

theorem confined_skipOpening (bracket : Bracket) (others : List Bracket) :
    Confined .next (skipOpening bracket others) := by
  apply confined_upcoming.bind
  intro next
  split
  · exact (gives_failNext _).confined
  · split
    · exact confined_advance.bind fun _ ↦ confined_skipClosings others
    · exact (confined_skipKey bracket).map _

/-- Each piece starts with a character of its own. -/
theorem takes_skipPiece (brackets : List Bracket) : Takes .next (skipPiece brackets) := by
  have hclosings : ∀ _ : Unit, Confined .next (skipClosings brackets) :=
    fun _ ↦ confined_skipClosings brackets
  apply takes_demand
  intro c
  split
  · exact ((takes_word (by decide)).bind hclosings).past _
  · exact ((takes_word (by decide)).bind hclosings).past _
  · exact ((takes_word (by decide)).bind hclosings).past _
  · exact (takes_skipNumber.bind hclosings).confined.advance _
  · exact (takes_skipString.bind hclosings).confined.advance _
  · exact (confined_skipOpening .list brackets).advance _
  · exact (confined_skipOpening .object brackets).advance _
  · split
    · exact (takes_skipNumber.bind hclosings).past _
    · exact (gives_failNext _).past _

/-- The brackets that are open are kept in a list, so that values of any depth are passed over. -/
theorem takes_skipValue : Takes .next skipValue := by
  refine takes_repeatFrom (fun brackets ↦ ?_) []
  apply (takes_skipPiece brackets).bind
  intro stillOpen
  split <;> exact confined_pure _

/-- Whatever stands inside of a bracket, nothing is seen of what follows the bracket. -/
theorem takes_enclosed {close : Reader Unit} {inner : Nat → Reader α}
    (hclose : Takes .nothing close) (hinner : ∀ budget, Confined .next (inner budget))
    (budget : Nat) : Takes .nothing (enclosed close inner budget) := by
  cases budget with
  | zero => exact (gives_failNext _).takes
  | succ budget =>
    have hsettled : Confined .next fun rest ↦ (inner budget rest).mapError (settledBy close) := by
      intro text a rest hrun
      obtain ⟨front, htext, hmore⟩ := hinner budget text a rest (mapError_eq_ok_iff.mp hrun)
      exact ⟨front, htext, fun more hsame ↦ mapError_eq_ok_iff.mpr (hmore more hsame)⟩
    apply confined_advance.bind_takes
    intro _
    -- All that the inside can see behind it is the bracket, which is read next.
    apply hsettled.bind_takes
    intro a
    exact hclose.map _

/-- Each round takes an item, so the loop ends with the text. -/
theorem confined_items {item : Reader α} (h : Takes .nothing item) :
    Confined .next (items item) := by
  refine confined_repeatFrom (fun done ↦ ?_) (fun done ↦ ?_) []
  · apply (confined_anotherItem _).bind
    intro more
    split
    · exact (h.confined.weaken _).map _
    · exact confined_pure _
  · apply (confined_anotherItem _).bind_advances
    intro more
    split
    · exact (h.map _).advances
    · exact advances_pure (by simp)

/-- A loop whose rounds begin with a key. -/
theorem confined_keyed (isFirst : σ → Bool) (result : σ → α) {read : σ → String → Reader (σ ⊕ α)}
    (h : ∀ s key, Confined .next (read s key)) (start : σ) :
    Confined .next (repeatFrom start fun s ↦ do
      match ← anotherKey (isFirst s) with
      | none => return .inr (result s)
      | some key => read s key) := by
  have hround (s : σ) (key : Option String) : Confined .next (match key with
      | none => return .inr (result s)
      | some key => read s key) := by
    cases key with
    | none => exact confined_pure _
    | some key => exact h s key
  refine confined_repeatFrom (fun s ↦ (confined_anotherKey _).bind (hround s)) (fun s ↦ ?_) start
  -- Only a round that has found a key goes on.
  refine (advances_anotherKey _).bind (fun key _ ↦ hround s key) fun key hkey ↦ ?_
  cases key with
  | none => exact gives_pure (by simp)
  | some key => exact absurd rfl hkey

/-- Members whose keys are not known are passed over. -/
theorem confined_members {member : String → σ → Option (Reader σ)}
    (h : ∀ key draft read, member key draft = some read → Confined .next read) (start : σ) :
    Confined .next (members start member) := by
  refine confined_keyed Prod.fst Prod.snd (fun state key ↦ ?_) (true, start)
  split
  · rename_i read hread
    exact (h key state.2 read hread).map _
  · apply takes_colon.confined.bind
    intro _
    exact takes_skipValue.confined.map _

theorem confined_once {key : String} {earlier : Option α} {read : Reader α}
    (h : Confined outlook read) : Confined outlook (once key earlier read) := by
  unfold once
  split
  · have htwice : Gives (mismatch (.fieldTwice key) : Reader PUnit) fun _ ↦ False :=
      gives_mismatch _
    exact (htwice.bind fun _ hfalse ↦ hfalse.elim).confined
  · exact takes_colon.confined.bind fun _ ↦ h

theorem confined_place {title : String} {count position : Nat} {read : Reader α}
    (h : Confined .next read) : Confined .next (place title count position read) := by
  apply (confined_anotherItem _).bind
  intro more
  split
  · exact h
  · exact (gives_mismatch _).confined

/-- Both forms of a record end at their own bracket. -/
theorem takes_record {title : String} {named positional : Nat → Reader α}
    (hnamed : ∀ budget, Confined .next (named budget))
    (hpositional : ∀ budget, Confined .next (positional budget)) (budget : Nat) :
    Takes .nothing (record title named positional budget) := by
  apply confined_demand.bind_takes
  intro c
  split
  · exact takes_enclosed takes_closeObject hnamed budget
  · exact takes_enclosed takes_closeList hpositional budget
  · exact (gives_wrongType _).takes

variable {choices : List (String × Payload α)}

theorem confined_chosen (name : String) : Confined outlook (chosen choices name) := by
  unfold chosen
  split
  · exact confined_pure _
  · exact (gives_failHere _).confined

/-- The brace is known to be there, and the tag and its payload follow it. -/
theorem confinedPast_taggedVariant
    (h : ∀ name payload, choices.lookup name = some payload →
      ∀ budget, Confined .nothing (payload.value budget)) (budget : Nat) (c : Char) :
    ConfinedPast .nothing c (taggedVariant choices budget) := by
  cases budget with
  | zero => exact (gives_failNext _).past c
  | succ budget =>
    refine Confined.advance (takes_upcoming (gives_failNext _) fun d ↦ ?_).confined c
    split
    · refine Confined.advance ?_ d
      apply takes_string.confined.bind
      intro name
      apply (confined_chosen name).bind_of_gives (gives_chosen name)
      intro payload hpayload
      apply takes_colon.confined.bind
      intro _
      apply (h name payload hpayload budget).bind
      intro value
      refine (takes_upcoming (gives_failHere _) fun e ↦ ?_).confined
      split
      · exact (confined_pure value).advance e
      · exact (gives_failHere _).past e
      · exact (gives_failHere _).past e
    · exact (gives_failNext _).past d
    · exact (gives_failNext _).past d
    · exact (gives_failNext _).past d

/-- A variant is a bare string or ends at its brace. -/
theorem takes_variant
    (h : ∀ name payload, choices.lookup name = some payload →
      ∀ budget, Confined .nothing (payload.value budget)) (budget : Nat) :
    Takes .nothing (variant choices budget) := by
  apply takes_upcoming (gives_failNext _)
  intro c
  split
  · exact confinedPast_taggedVariant h budget c
  · refine Confined.advance ?_ c
    apply takes_string.confined.bind
    intro name
    apply (confined_chosen name).bind
    intro payload
    cases payload with
    | nothing value => exact confined_pure value
    | carried read => exact (gives_mismatch _).confined
  · exact (gives_failNext _).past c
  · exact (gives_failNext _).past c

theorem takes_nullValue : Takes outlook nullValue := by
  apply takes_demand
  intro c
  split
  · exact (takes_word (by decide)).past c
  · exact (gives_wrongType _).past c

end Json.Reader

open Json Json.Reader

/-! ## Labels, trees and statements -/

theorem Identifier.takes_reader : Takes .nothing Identifier.reader :=
  takes_stringValue.bind fun _ ↦ confined_vetted _

theorem Condition.takes_reader (budget : Nat) : Takes .nothing (Condition.reader budget) := by
  refine takes_variant ?_ budget
  intro name payload hname budget
  obtain ⟨c, -, rfl⟩ := (lookup_spelling_iff lookup_spelling name payload).mp hname
  exact takes_nullValue.confined.map _

theorem Label.takes_reader (budget : Nat) : Takes .nothing (Label.reader budget) := by
  refine takes_variant ?_ budget
  intro name payload hname budget
  obtain ⟨k, -, rfl⟩ := (lookup_spelling_iff lookup_payload name payload).mp hname
  cases k with
  | block => exact takes_nullValue.confined.map _
  | ifThen | ifElse | whileDo => exact (Condition.takes_reader budget).confined.map _
  | call => exact Identifier.takes_reader.confined.map _

namespace Tree

variable {L : Type} {label : Nat → Reader L} {child : Reader (Tree L)}

/-- Children stand between brackets, whatever they are. -/
theorem takes_childrenReader (h : Takes .nothing child) (budget : Nat) :
    Takes .nothing (childrenReader child budget) := by
  apply confined_demand.bind_takes
  intro c
  split
  · exact takes_enclosed takes_closeList (fun _ ↦ confined_items h) budget
  · exact (gives_wrongType _).takes

theorem confined_namedNode (hlabel : ∀ budget, Takes .nothing (label budget))
    (h : Takes .nothing child) (budget : Nat) : Confined .next (namedNode label child budget) := by
  rw [namedNode_eq]
  refine (confined_members (fun key draft read hread ↦ ?_) _).bind fun draft ↦ ?_
  · unfold nodeMember at hread
    split at hread
    · cases hread
      exact (confined_once ((hlabel budget).confined.weaken _)).map _
    · cases hread
      exact (confined_once ((takes_childrenReader h budget).confined.weaken _)).map _
    · cases hread
  · apply (confined_required _ _).bind
    intro l
    exact (confined_required _ _).map _

theorem confined_positionalNode (hlabel : ∀ budget, Takes .nothing (label budget))
    (h : Takes .nothing child) (budget : Nat) :
    Confined .next (positionalNode label child budget) := by
  apply (confined_place ((hlabel budget).confined.weaken _)).bind
  intro l
  exact (confined_place ((takes_childrenReader h budget).confined.weaken _)).map _

/-- An empty tree is a word, and a node ends at a bracket. -/
theorem takes_readerWith (hlabel : ∀ budget, Takes .nothing (label budget))
    (h : Takes .nothing child) (budget : Nat) :
    Takes .nothing (readerWith label child budget) := by
  apply confined_upcoming.bind_takes
  intro next
  split
  · exact (takes_word (by decide)).map _
  · exact takes_record (confined_namedNode hlabel h) (confined_positionalNode hlabel h) budget

/-- By recursion on the budget in steps of two, as trees are read. -/
theorem takes_reader (hlabel : ∀ budget, Takes .nothing (label budget)) (budget : Nat) :
    Takes .nothing (Tree.reader label budget) := by
  have hnone : Takes .nothing (failNext (.breach .tooDeep) : Reader (Tree L)) :=
    (gives_failNext _).takes
  match budget with
  | 0 => exact takes_readerWith hlabel hnone 0
  | 1 => exact takes_readerWith hlabel hnone 1
  | budget + 2 => exact takes_readerWith hlabel (takes_reader hlabel budget) (budget + 2)

end Tree

theorem Statement.takes_reader (budget : Nat) : Takes .nothing (Statement.reader budget) :=
  (Tree.takes_reader Label.takes_reader budget).bind fun _ ↦ confined_vetted _

/-- Reading a context takes its text up to the closing brace. -/
theorem Context.takes_reader (budget : Nat) : Takes .nothing (Context.reader budget) := by
  apply confined_demand.bind_takes
  intro c
  split
  · refine takes_enclosed takes_closeObject (fun budget ↦ ?_) budget
    refine confined_keyed Prod.fst Prod.snd (fun state key ↦ ?_) (true, empty)
    apply (confined_vetted _).bind
    intro name
    apply takes_colon.confined.bind
    intro _
    apply ((Statement.takes_reader budget).confined.weaken _).bind
    intro body
    split
    · exact (gives_mismatch _).confined
    · exact confined_pure _
  · exact (gives_wrongType _).takes

namespace Program

theorem confined_namedParts (budget : Nat) : Confined .next (namedParts budget) := by
  rw [namedParts_eq]
  refine (confined_members (fun key draft read hread ↦ ?_) _).bind fun draft ↦ ?_
  · unfold partMember at hread
    split at hread
    · cases hread
      exact (confined_once (Identifier.takes_reader.confined.weaken _)).map _
    · cases hread
      exact (confined_once ((Context.takes_reader budget).confined.weaken _)).map _
    · cases hread
      exact (confined_once ((Statement.takes_reader budget).confined.weaken _)).map _
    · cases hread
  · apply (confined_required _ _).bind
    intro name
    dsimp only
    split
    · exact (confined_pure _).map _
    · exact (confined_vetted _).map _

theorem confined_positionalParts (budget : Nat) : Confined .next (positionalParts budget) := by
  apply (confined_place (Identifier.takes_reader.confined.weaken _)).bind
  intro name
  apply (confined_anotherItem false).bind
  intro more
  dsimp only
  split
  · apply ((Context.takes_reader budget).confined.weaken _).bind
    intro context
    exact (confined_place ((Statement.takes_reader budget).confined.weaken _)).map _
  · apply (confined_pure _).bind
    intro context
    exact (confined_place ((Statement.takes_reader budget).confined.weaken _)).map _

theorem takes_partsReader (budget : Nat) : Takes .nothing (partsReader budget) :=
  takes_record confined_namedParts confined_positionalParts budget

end Program

/-! ## Texts on their own and inside of others -/

namespace Json

variable {α : Type} {reader : Nat → Reader α} {text : List Char} {a : α}

/-- A whole text is one value, with nothing but blanks behind it. -/
theorem decodeChars_eq_ok_iff :
    decodeChars reader text = .ok a ↔
      ∃ blanks, (∀ c ∈ blanks, isBlank c = true) ∧ reader nestingLimit text = .ok (a, blanks) := by
  rw [decodeChars]
  cases hread : reader nestingLimit text with
  | error failure =>
    constructor
    · intro h
      cases h
    · rintro ⟨blanks, -, h⟩
      cases h
  | ok pair =>
    obtain ⟨b, rest⟩ := pair
    change (if (rest.dropWhile isBlank).head?.isSome then Except.error _ else Except.ok b) = _ ↔ _
    simp only [Except.ok.injEq, Prod.mk.injEq]
    split
    · rename_i hmore
      constructor
      · intro h
        cases h
      · rintro ⟨blanks, hblanks, -, rfl⟩
        rw [List.dropWhile_eq_nil_iff.mpr hblanks] at hmore
        cases hmore
    · rename_i hend
      rw [List.isSome_head?, not_not, List.dropWhile_eq_nil_iff] at hend
      constructor
      · intro h
        exact ⟨rest, hend, Except.ok.inj h, rfl⟩
      · rintro ⟨_, -, rfl, -⟩
        rfl

/-- What a text is decoded to is also read where the text stands inside of another. -/
theorem exists_blanks_of_decodeChars (h : Takes .nothing (reader nestingLimit))
    (hdecode : decodeChars reader text = .ok a) :
    ∃ blanks, (∀ c ∈ blanks, isBlank c = true) ∧
      ∀ more, reader nestingLimit (text ++ more) = .ok (a, blanks ++ more) := by
  obtain ⟨blanks, hblanks, hread⟩ := decodeChars_eq_ok_iff.mp hdecode
  refine ⟨blanks, hblanks, fun more ↦ ?_⟩
  obtain ⟨front, -, rfl, hmore⟩ := h text a blanks hread
  rw [List.append_assoc]
  exact hmore (blanks ++ more) trivial

/-- What is read inside of a text is also decoded from a front of it. -/
theorem exists_front_of_read (h : Takes .nothing (reader nestingLimit)) {rest : List Char}
    (hread : reader nestingLimit text = .ok (a, rest)) :
    ∃ front, text = front ++ rest ∧ decodeChars reader front = .ok a := by
  obtain ⟨front, -, rfl, hmore⟩ := h text a rest hread
  refine ⟨front, rfl, decodeChars_eq_ok_iff.mpr ⟨[], by simp, ?_⟩⟩
  have hwhole := hmore [] trivial
  rwa [List.append_nil] at hwhole

end Json

end BLTree

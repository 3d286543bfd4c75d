import BLTree.Proofs.Json.Extents
import BLTree.Proofs.Json.TwoTexts

/-!
# Failures with and without a place

A failure gets its place where it arises, or from the innermost bracket around the place where it
arises. Only the checks of a whole program are made behind its last bracket, so that exactly these
are reported without a place. What is checked are the parts of a program, which were read from the
front of the text; whether something follows that should not be there has not been looked at then.
-/

namespace BLTree

namespace Json.Reader

variable {α β σ : Type}

/-- Whatever failure the reader ends in, the failure has a place. -/
def Placed (r : Reader α) : Prop :=
  ∀ text failure, r text = .error failure → failure.reach.isSome = true

/-- A reader that never fails. -/
theorem placed_of_ok {r : Reader α} (h : ∀ text, ∃ pair, r text = .ok pair) : Placed r := by
  intro text failure hrun
  obtain ⟨pair, hok⟩ := h text
  rw [hok] at hrun
  cases hrun

theorem placed_pure (a : α) : Placed (pure a : Reader α) := placed_of_ok fun _ ↦ ⟨_, rfl⟩

theorem placed_failHere (cause : Cause) : Placed (failHere cause : Reader α) := by
  intro text failure hrun
  rw [← Except.error.inj hrun]
  rfl

/-- A failure of the grammar is placed at the character that is next. -/
theorem placed_failNext (cause : Cause) : Placed (failNext cause : Reader α) := by
  intro text failure hrun
  rw [← Except.error.inj hrun]
  rfl

/-- Failures keep their place on the way out. -/
theorem Placed.bind {r : Reader α} {f : α → Reader β} (h : Placed r) (hf : ∀ a, Placed (f a)) :
    Placed (r >>= f) := by
  intro text failure hrun
  rw [bind_apply] at hrun
  cases hfirst : r text with
  | error earlier =>
    rw [hfirst] at hrun
    obtain rfl := Except.error.inj hrun
    exact h text earlier hfirst
  | ok pair =>
    rw [hfirst] at hrun
    exact hf pair.1 pair.2 failure hrun

theorem Placed.map {r : Reader α} (h : Placed r) (f : α → β) :
    Placed (r >>= fun a ↦ pure (f a)) := h.bind fun a ↦ placed_pure (f a)

theorem placed_peek : Placed peek := placed_of_ok fun _ ↦ ⟨_, rfl⟩

theorem placed_advance : Placed advance := placed_of_ok fun _ ↦ ⟨_, rfl⟩

theorem placed_upcoming : Placed upcoming := placed_of_ok fun _ ↦ ⟨_, rfl⟩

theorem placed_demand : Placed demand := by
  apply placed_upcoming.bind
  intro next
  cases next with
  | none => exact placed_failNext _
  | some c => exact placed_pure c

theorem placed_word (characters : List Char) : Placed (word characters) := by
  induction characters with
  | nil => exact placed_pure ()
  | cons c others ih =>
    apply placed_peek.bind
    intro next
    split
    · exact placed_failHere _
    · split
      · exact placed_advance.bind fun _ ↦ ih
      · exact placed_failNext _

/-- Failures of a loop are those of its rounds. -/
theorem placed_repeatFrom {step : σ → Reader (σ ⊕ α)} (h : ∀ s, Placed (step s)) (start : σ) :
    Placed (repeatFrom start step) := by
  have hrounds (rounds : Nat) (s : σ) : Placed (repeatFor step rounds s) := by
    induction rounds generalizing s with
    | zero => exact placed_failHere _
    | succ rounds ih =>
      apply (h s).bind
      intro out
      cases out with
      | inl next => exact ih next
      | inr result => exact placed_pure result
  intro text failure hrun
  exact hrounds _ start text failure hrun

/-- An escape that is cut off or has other characters in it is placed inside of it. -/
theorem placed_hexQuad : Placed hexQuad := by
  intro text failure hrun
  unfold hexQuad at hrun
  split at hrun
  · obtain rfl := Except.error.inj hrun
    rfl
  · split at hrun
    · cases hrun
    · obtain rfl := Except.error.inj hrun
      rfl

theorem placed_pairMark (c : Char) : Placed (pairMark c) := by
  apply placed_peek.bind
  intro next
  split
  · exact placed_failHere _
  · split
    · exact placed_advance
    · exact placed_failNext _

theorem placed_numberedChar : Placed numberedChar := by
  apply placed_hexQuad.bind
  intro first
  split
  · exact placed_failHere _
  · split
    · apply (placed_pairMark '\\').bind
      intro _
      apply (placed_pairMark 'u').bind
      intro _
      apply placed_hexQuad.bind
      intro second
      split
      · exact placed_pure _
      · exact placed_failHere _
    · exact placed_pure _

/-- An unknown escape is placed behind its character. -/
theorem placed_escape : Placed escape := by
  apply placed_peek.bind
  intro next
  split
  · exact placed_failHere _
  · exact placed_advance.bind fun _ ↦ placed_numberedChar
  · split
    · exact placed_advance.map _
    · exact placed_failNext _

/-- All that can go wrong in a string has a place. -/
theorem placed_string : Placed string := by
  refine placed_repeatFrom (fun done ↦ ?_) []
  apply placed_peek.bind
  intro next
  split
  · exact placed_failHere _
  · exact placed_advance.map _
  · exact placed_advance.bind fun _ ↦ placed_escape.map _
  · split
    · exact placed_failNext _
    · exact placed_advance.map _

theorem placed_digits : Placed digits := placed_of_ok fun _ ↦ ⟨_, rfl⟩

/-- A leading zero or a missing digit has a place. -/
theorem placed_wholePart (unfinished : Cause) : Placed (wholePart unfinished) := by
  apply placed_peek.bind
  intro next
  split
  · exact placed_failHere _
  · apply placed_advance.bind
    intro _
    apply placed_peek.bind
    intro later
    split
    · exact placed_failNext _
    · exact placed_pure _
  · split
    · exact placed_digits
    · exact placed_failNext _

theorem placed_decimalPlaces (unfinished : Cause) : Placed (decimalPlaces unfinished) := by
  apply placed_peek.bind
  intro next
  split
  · apply placed_advance.bind
    intro _
    apply placed_digits.bind
    intro places
    split
    · exact placed_peek.bind fun _ ↦ placed_failNext _
    · exact placed_pure _
  · exact placed_pure _

theorem placed_exponentPart (unfinished : Cause) : Placed (exponentPart unfinished) := by
  apply placed_peek.bind
  intro next
  split
  · apply placed_advance.bind
    intro _
    apply placed_peek.bind
    intro sign
    extract_lets afterSign
    have hdigits (u : PUnit) : Placed (afterSign u) := by
      apply placed_peek.bind
      intro next
      split
      · exact placed_failHere _
      · split
        · exact placed_digits.map _
        · exact placed_failNext _
    split
    · exact placed_advance.bind hdigits
    · exact hdigits ()
  · exact placed_pure _

/-- A number that is too large for a double has a place. -/
theorem placed_floating (negative : Bool) (significand : Nat) (exponent : Int) :
    Placed (floating negative significand exponent) := by
  unfold floating
  split
  · exact placed_pure _
  · exact placed_failHere _

/-- All that can go wrong in a number has a place. -/
theorem placed_number (negative : Bool) : Placed (number negative) := by
  apply (placed_wholePart _).bind
  intro whole
  apply (placed_decimalPlaces _).bind
  intro places
  apply (placed_exponentPart _).bind
  intro exponent
  dsimp only
  split
  · split
    · split
      · exact placed_pure _
      · split <;> exact placed_pure _
    · exact placed_floating _ _ _
  · split
    · exact placed_floating _ _ _
    · split
      · exact placed_pure _
      · have hset (rest : List Char) : Placed (set rest : Reader PUnit) :=
          placed_of_ok fun _ ↦ ⟨_, rfl⟩
        have hget : Placed (get : Reader (List Char)) := placed_of_ok fun _ ↦ ⟨_, rfl⟩
        exact hget.bind fun _ ↦ (hset _).bind fun _ ↦ placed_failHere _

/-- What stands in place of something else is read first, which may fail with a place. -/
theorem placed_found : Placed found := by
  apply placed_peek.bind
  intro next
  split
  · exact (placed_word _).map _
  · exact (placed_word _).map _
  · exact (placed_word _).map _
  · exact placed_advance.bind fun _ ↦ (placed_number _).map _
  · exact placed_advance.bind fun _ ↦ placed_string.map _
  · exact placed_pure _
  · exact placed_pure _
  · split
    · exact (placed_number _).map _
    · exact placed_failNext _
  · exact placed_failNext _

/-- A value of the wrong sort is placed behind it. -/
theorem placed_wrongType (expected : String) : Placed (wrongType expected : Reader α) :=
  placed_found.bind fun _ ↦ placed_failHere _

/-- A missing bracket has a place. -/
theorem placed_closeList : Placed closeList := by
  apply placed_upcoming.bind
  intro next
  split
  · exact placed_advance
  · exact placed_advance.bind fun _ ↦ placed_upcoming.bind fun _ ↦ placed_failNext _
  · exact placed_failNext _
  · exact placed_failNext _

theorem placed_closeObject : Placed closeObject := by
  apply placed_upcoming.bind
  intro next
  split
  · exact placed_advance
  · exact placed_failNext _
  · exact placed_failNext _
  · exact placed_failNext _

/-- A failure inside of a bracket has a place, whatever the reader is that ends in it. -/
theorem placed_enclosed {close : Reader Unit} (hclose : Placed close) (inner : Nat → Reader α)
    (budget : Nat) : Placed (enclosed close inner budget) := by
  cases budget with
  | zero => exact placed_failNext _
  | succ budget =>
    have hsettled : Placed fun rest ↦ (inner budget rest).mapError (settledBy close) := by
      intro text failure hrun
      dsimp only at hrun
      cases hinner : inner budget text with
      | ok pair =>
        rw [hinner] at hrun
        cases hrun
      | error earlier =>
        rw [hinner] at hrun
        obtain ⟨left, reach, hplace⟩ := exists_settledBy close earlier
        rw [← Except.error.inj hrun, hplace]
        rfl
    apply placed_advance.bind
    intro _
    apply hsettled.bind
    intro a
    exact hclose.map _

/-- Either form of a record is between brackets, and a third is of the wrong sort. -/
theorem placed_record (title : String) (named positional : Nat → Reader α) (budget : Nat) :
    Placed (record title named positional budget) := by
  apply placed_demand.bind
  intro c
  split
  · exact placed_enclosed placed_closeObject named budget
  · exact placed_enclosed placed_closeList positional budget
  · exact placed_wrongType _

end Json.Reader

open Json Json.Reader

namespace Program

/-! ## Parts that make no program -/

/-- The text starts with a document that holds the parts of a program, but the parts are refused:
the context, or else the body. -/
def RefusedParts (text : String) : Prop :=
  ∃ (front back : String) (parts : Parts), text = front ++ back ∧
    Json.decode partsReader front = .ok parts ∧
      ((∃ defect, checkContext parts.context = .error defect) ∨ parts.body.kind? ≠ some .block)

/-- Parts are refused for the context or for the body. -/
theorem exists_ofParts_error_iff {name : Identifier} {context : Context} {body : Statement} :
    (∃ defect, ofParts name context body = .error defect) ↔
      (∃ defect, checkContext context = .error defect) ∨ body.kind? ≠ some .block := by
  rw [ofParts, ne_eq, kind?_eq_block_iff, ← blockDefect?_eq_none_iff .bodyNotBlock]
  cases checkContext context with
  | error defect => simp [bind, Except.bind]
  | ok _ => cases blockDefect? .bodyNotBlock body <;> simp [bind, Except.bind]

/-- The front of a text that holds the parts of a program is read in the text as it is on its
own. -/
theorem refusedParts_iff {text : String} :
    RefusedParts text ↔ ∃ parts rest defect,
      partsReader nestingLimit text.toList = .ok (parts, rest) ∧
        ofParts parts.name parts.context parts.body = .error defect := by
  constructor
  · rintro ⟨front, back, parts, rfl, hdecode, hrefused⟩
    obtain ⟨blanks, -, hread⟩ :=
      exists_blanks_of_decodeChars (takes_partsReader nestingLimit) hdecode
    obtain ⟨defect, hdefect⟩ := exists_ofParts_error_iff.mpr hrefused
    exact ⟨parts, _, defect, String.toList_append ▸ hread back.toList, hdefect⟩
  · rintro ⟨parts, rest, defect, hread, hdefect⟩
    obtain ⟨front, htext, hdecode⟩ := exists_front_of_read (takes_partsReader nestingLimit) hread
    refine ⟨String.ofList front, String.ofList rest, parts, ?_, ?_,
      exists_ofParts_error_iff.mp ⟨defect, hdefect⟩⟩
    · rw [← String.ofList_append, ← htext, String.ofList_toList]
    · rw [Json.decode, String.toList_ofList]
      exact hdecode

/-- Once the parts are read, only the check of the whole can fail. -/
theorem reader_of_parts {text : List Char} {parts : Parts} {rest : List Char} {budget : Nat}
    (h : partsReader budget text = .ok (parts, rest)) :
    reader budget text =
      vetted ((ofParts parts.name parts.context parts.body).mapError .program) rest :=
  bind_of_ok h _

/-- A failure while reading is reported as it is. -/
theorem failure_of_read {text : String} {failure earlier : Failure}
    (hread : reader nestingLimit text.toList = .error earlier) (h : decode text = .error failure) :
    failure = earlier :=
  Except.error.inj (h.symm.trans (decode_of_error hread))

/-- A program that is read may be followed by something that should not be there, and that has a
place. -/
theorem reach_of_read {text : String} {p : Program} {rest : List Char} {failure : Failure}
    (hread : reader nestingLimit text.toList = .ok (p, rest))
    (h : decode text = .error failure) : failure.reach.isSome = true := by
  rw [decode, Json.decode, decodeChars, hread] at h
  change (if (rest.dropWhile isBlank).head?.isSome then
    Except.error ⟨.breach .trailingCharacters, rest.dropWhile isBlank, some 1⟩
    else Except.ok p) = .error failure at h
  split at h
  · obtain rfl := Except.error.inj h
    rfl
  · cases h

/-- A text that cannot be decoded is reported without a place exactly if the parts of a program that
it starts with are refused. -/
theorem reach_eq_none_iff {text : String} {failure : Failure} (h : decode text = .error failure) :
    failure.reach = none ↔ RefusedParts text := by
  rw [refusedParts_iff]
  cases hparts : partsReader nestingLimit text.toList with
  | error earlier =>
    -- What fails while the parts are read has a place of its own or one from the last bracket.
    have hreach := placed_record "RawProgram" namedParts positionalParts nestingLimit _ _ hparts
    have hread : reader nestingLimit text.toList = .error earlier := by
      rw [reader, bind_apply, hparts]
    obtain rfl := failure_of_read hread h
    simp [Option.isSome_iff_ne_none.mp hreach]
  | ok pair =>
    obtain ⟨parts, rest⟩ := pair
    have hread := reader_of_parts hparts
    cases hchecked : ofParts parts.name parts.context parts.body with
    | error defect =>
      rw [hchecked] at hread
      obtain rfl := failure_of_read hread h
      exact iff_of_true rfl ⟨parts, rest, defect, rfl, hchecked⟩
    | ok p =>
      -- Nothing is refused, so what is wrong stands behind the program.
      rw [hchecked] at hread
      have hreach := reach_of_read hread h
      refine iff_of_false (Option.isSome_iff_ne_none.mp hreach) ?_
      rintro ⟨_, _, defect, hparts', hdefect⟩
      obtain ⟨rfl, rfl⟩ := Prod.mk.inj (Except.ok.inj hparts')
      cases hchecked.symm.trans hdefect

/-! ## Reports -/

/-- The text ends in a character that is no digit, so it does not end in a position. -/
def EndsInWord (text : String) : Prop := text.toList.getLast?.any (!·.isDigit) = true

instance (text : String) : Decidable (EndsInWord text) :=
  inferInstanceAs (Decidable (_ = true))

theorem EndsInWord.append {back : String} (h : EndsInWord back) (front : String) :
    EndsInWord (front ++ back) := by
  unfold EndsInWord at h ⊢
  rw [String.toList_append, List.getLast?_append]
  cases hlast : back.toList.getLast? with
  | none =>
    rw [hlast] at h
    cases h
  | some c =>
    rw [hlast] at h
    exact h

theorem endsInWord_message (defect : Defect) : EndsInWord defect.message := by
  have hkind (kind : Kind) : EndsInWord kind.spelling := by
    cases kind <;> decide
  cases defect with
  | primitiveRedefined name => exact EndsInWord.append (by decide) _
  | procedureNotBlock name found => exact (hkind found).append _
  | bodyNotBlock found => exact (hkind found).append _
  | procedureTwice name => exact EndsInWord.append (by decide) _
  | kindless => decide

/-- A position ends in a digit, so it cannot be mistaken for the end of a message. -/
theorem not_endsInWord_number (front : String) (n : Nat) : ¬ EndsInWord (front ++ toString n) := by
  have hdigits : (toString n).toList = Nat.toDigits 10 n := by simp
  have hne : Nat.toDigits 10 n ≠ [] := by simp
  unfold EndsInWord
  rw [String.toList_append, List.getLast?_append, hdigits, List.getLast?_eq_some_getLast hne]
  have hdigit : ((Nat.toDigits 10 n).getLast hne).isDigit = true :=
    Nat.isDigit_of_mem_toDigits (by decide) (by decide) (List.getLast_mem hne)
  simp [hdigit]

end Program

namespace Json.Failure

variable {failure : Failure} {text : String}

theorem position?_eq_none_iff : failure.position? text = none ↔ failure.reach = none := by
  simp [position?, offset?]

/-- Lines are counted from one. -/
theorem one_le_line {place : Position} (h : failure.position? text = some place) :
    1 ≤ place.line := by
  obtain ⟨offset, -, rfl⟩ := Option.map_eq_some_iff.mp h
  exact Nat.le_add_right 1 _

theorem reason_of_none (h : failure.position? text = none) :
    failure.reason text = failure.cause.message := by
  simp only [reason, h, String.append_empty]

/-- A position is told behind the message. -/
theorem reason_of_some {place : Position} (h : failure.position? text = some place) :
    failure.reason text = failure.cause.message ++
      (" at line " ++ toString place.line ++ " column " ++ toString place.column) := by
  simp only [reason, h]

theorem labelOffset_of_none (h : failure.position? text = none) :
    failure.labelOffset text = 0 := by
  simp [labelOffset, h, Position.offset]

/-- The label is never put behind the end of the text. -/
theorem labelOffset_le (failure : Failure) (text : String) :
    failure.labelOffset text ≤ text.utf8ByteSize := Nat.min_le_right _ _

end Json.Failure

theorem LoadFault.message_undecodable (path text : String) (failure : Failure) :
    (LoadFault.undecodable path text failure).message =
      "could not load program from " ++ path ++ ": " ++ failure.reason text := rfl

namespace Program

/-- What is refused about the parts of a program is told in words. -/
theorem endsInWord_of_refusedParts {text : String} {failure : Failure}
    (h : decode text = .error failure) (hrefused : RefusedParts text) :
    EndsInWord failure.cause.message := by
  obtain ⟨parts, rest, defect, hparts, hdefect⟩ := refusedParts_iff.mp hrefused
  have hread := reader_of_parts hparts
  rw [hdefect] at hread
  obtain rfl := failure_of_read hread h
  exact (endsInWord_message defect).append _

/-- A text that cannot be decoded is reported at no line, its label at the start of the text and its
message without a position, exactly if the text starts with the parts of a program and these are
refused. All other failures are reported at a line, and no label lies beyond the text. -/
theorem failure_placed_unless_parts_refused {text : String} {failure : Failure}
    (h : decode text = .error failure) :
    let place := (failure.position? text).getD ⟨0, 0⟩
    (place = ⟨0, 0⟩ ↔ RefusedParts text) ∧
    (RefusedParts text → failure.labelOffset text = 0 ∧
      ∀ path front (other : Position), (LoadFault.undecodable path text failure).message ≠
        front ++ " at line " ++ toString other.line ++ " column " ++ toString other.column) ∧
    (¬ RefusedParts text → 1 ≤ place.line ∧
      ∀ path, ∃ front, (LoadFault.undecodable path text failure).message =
        front ++ " at line " ++ toString place.line ++ " column " ++ toString place.column) ∧
    failure.labelOffset text ≤ text.utf8ByteSize := by
  intro place
  have hreach := reach_eq_none_iff h
  rw [← Failure.position?_eq_none_iff] at hreach
  have hoffset := failure.labelOffset_le text
  cases hposition : failure.position? text with
  | none =>
    have hrefused := hreach.mp hposition
    have hplace : place = ⟨0, 0⟩ := by simp [place, hposition]
    refine ⟨iff_of_true hplace hrefused, fun _ ↦ ⟨Failure.labelOffset_of_none hposition, ?_⟩,
      fun hplaced ↦ absurd hrefused hplaced, hoffset⟩
    intro path front other hmessage
    rw [LoadFault.message_undecodable, Failure.reason_of_none hposition] at hmessage
    have hword := (endsInWord_of_refusedParts h hrefused).append
      ("could not load program from " ++ path ++ ": ")
    rw [hmessage] at hword
    exact not_endsInWord_number _ _ hword
  | some position =>
    have hplaced : ¬ RefusedParts text := by
      rw [← hreach, hposition]
      nofun
    have hplace : place = position := by simp [place, hposition]
    have hline := Failure.one_le_line hposition
    rw [hplace]
    refine ⟨iff_of_false ?_ hplaced, fun hrefused ↦ absurd hrefused hplaced, fun _ ↦ ⟨hline, ?_⟩,
      hoffset⟩
    · rintro rfl
      cases hline
    · intro path
      refine ⟨"could not load program from " ++ path ++ ": " ++ failure.cause.message, ?_⟩
      rw [LoadFault.message_undecodable, Failure.reason_of_some hposition]
      simp only [String.append_assoc]

/-- A procedure named after a primitive instruction in a text with one bracket too many, and a text
that ends too early. -/
theorem refused_parts_before_trailing_bracket :
    let refused := "[\"Trip\",\x7b\"move\":[\"BLOCK\",[]]\x7d,[\"BLOCK\",[]]] ]"
    let broken := "[\"Trip\",\n\x7b"
    (∃ failure, decode refused = .error failure ∧ RefusedParts refused ∧
      failure.labelOffset refused = 0) ∧
    ∃ failure, decode broken = .error failure ∧ ¬ RefusedParts broken ∧
      1 ≤ ((failure.position? broken).getD ⟨0, 0⟩).line := by
  intro refused broken
  have hrefused : decode refused = .error
      ⟨.mismatch (.rejected (.program (.primitiveRedefined ⟨"move", by decide⟩))), [' ', ']'],
        none⟩ := by
    decide +kernel
  have hbroken : decode broken = .error ⟨.unfinished .object, [], some 1⟩ := by
    decide +kernel
  have hparts : RefusedParts refused := (failure_placed_unless_parts_refused hrefused).1.mp rfl
  have hnone : ¬ RefusedParts broken := by
    rw [← reach_eq_none_iff hbroken]
    decide
  exact ⟨⟨_, hrefused, hparts, ((failure_placed_unless_parts_refused hrefused).2.1 hparts).1⟩,
    _, hbroken, hnone, ((failure_placed_unless_parts_refused hbroken).2.2.1 hnone).1⟩

end Program

end BLTree

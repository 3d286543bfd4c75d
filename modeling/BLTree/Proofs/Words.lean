import BLTree.Proofs.Contracts
import BLTree.Proofs.Json.ProgramConformance
import BLTree.Proofs.Json.TwoTexts

/-!
# Words and their classification

What an identifier is, said by ranges of characters and by lists of reserved words, and in which
order the reasons against a word are looked for. Whether a word comes alone, as a string in a
document or as the name in the document of a call, it is classified alike: an identifier is let in
with its text as it is, and for any other word the first rule that it breaks is told. The conditions
have three tables, the reserved words, the spellings and the names in documents, and these agree.
-/

namespace BLTree

open Json Json.Reader

namespace Vocabulary

def IsLetter (c : Char) : Prop := ('a' ≤ c ∧ c ≤ 'z') ∨ ('A' ≤ c ∧ c ≤ 'Z')

def IsDigit (c : Char) : Prop := '0' ≤ c ∧ c ≤ '9'

/-- A letter, followed by any number of letters, digits and underscores. -/
def IsShaped (word : String) : Prop :=
  ∃ first others, word.toList = first :: others ∧ IsLetter first ∧
    ∀ c ∈ others, IsLetter c ∨ IsDigit c ∨ c = '_'

/-- The rules in the order in which they are looked at, each with what is said of a word that breaks
it. -/
def rules (word : String) : List Clause :=
  [⟨word ≠ "", "is empty"⟩,
    ⟨IsShaped word, "must start with a letter and contain only letters, digits and '_'"⟩,
    ⟨word ∉ keywords, "is a keyword"⟩,
    ⟨word ∉ conditions, "is a condition"⟩]

theorem isAlpha_iff {c : Char} : c.isAlpha = true ↔ IsLetter c := by
  have hupper : c.isUpper = true ↔ 'A' ≤ c ∧ c ≤ 'Z' := decide_eq_true_iff
  have hlower : c.isLower = true ↔ 'a' ≤ c ∧ c ≤ 'z' :=
    (Bool.and_eq_true_iff).trans (and_congr decide_eq_true_iff decide_eq_true_iff)
  have halpha : c.isAlpha = true ↔ c.isUpper = true ∨ c.isLower = true := Bool.or_eq_true_iff
  rw [halpha, hupper, hlower, or_comm, IsLetter]

theorem isDigit_iff {c : Char} : c.isDigit = true ↔ IsDigit c :=
  (Bool.and_eq_true_iff).trans (and_congr decide_eq_true_iff decide_eq_true_iff)

theorem isWordChar_iff {c : Char} : isWordChar c = true ↔ IsLetter c ∨ IsDigit c ∨ c = '_' := by
  have halphanum : c.isAlphanum = true ↔ c.isAlpha = true ∨ c.isDigit = true := Bool.or_eq_true_iff
  rw [isWordChar, Bool.or_eq_true, halphanum, isAlpha_iff, isDigit_iff, beq_iff_eq, or_assoc]

/-- A letter, and behind it letters, digits and underscores. -/
theorem hasIdentifierShape_iff {word : String} :
    hasIdentifierShape word = true ↔ IsShaped word := by
  unfold hasIdentifierShape IsShaped
  cases word.toList with
  | nil => simp
  | cons first others => simp [isAlpha_iff, isWordChar_iff]

theorem isKeyword_iff {word : String} : isKeyword word = true ↔ word ∈ keywords :=
  List.contains_iff_mem

theorem isCondition_iff {word : String} : isCondition word = true ↔ word ∈ conditions :=
  List.contains_iff_mem

/-- Three conditions: the shape, and two lists of reserved words. -/
theorem isIdentifier_iff {word : String} :
    isIdentifier word = true ↔ IsShaped word ∧ word ∉ keywords ∧ word ∉ conditions := by
  rw [isIdentifier, Bool.and_eq_true, Bool.and_eq_true, hasIdentifierShape_iff, Bool.not_eq_true',
    Bool.not_eq_true', ← isKeyword_iff, ← isCondition_iff, Bool.not_eq_true, Bool.not_eq_true,
    and_assoc]

/-- Nothing that is written beyond ASCII belongs to an identifier, and no newline does. -/
theorem ascii_of_isIdentifier {word : String} (h : isIdentifier word = true) :
    ∀ c ∈ word.toList, c.toNat < 128 ∧ c ≠ '\n' := by
  intro c hc
  have hword : isWordChar c = true := Identifier.isWordChar_of_mem ⟨word, h⟩ hc
  refine ⟨Identifier.toNat_lt_of_isWordChar hword, ?_⟩
  rintro rfl
  exact absurd hword (by decide)

end Vocabulary

open Vocabulary

namespace Identifier

-- The checks come in the order of the rules, so at each of them the rules before it are kept.
/-- The reason that is told is the first rule that the word breaks. -/
theorem firstBroken_of_rejection? {word : String} {why : Rejection}
    (h : rejection? word = some why) : FirstBroken (rules word) why.reason := by
  unfold rejection? at h
  split at h
  · rename_i hempty
    cases h
    exact .here (not_not_intro hempty)
  · rename_i hempty
    split at h
    · rename_i hshape
      cases h
      rw [Bool.not_eq_true', ← Bool.not_eq_true, hasIdentifierShape_iff] at hshape
      exact .later hempty (.here hshape)
    · rename_i hshape
      rw [Bool.not_eq_true, Bool.not_eq_false', hasIdentifierShape_iff] at hshape
      split at h
      · rename_i hkeyword
        cases h
        rw [isKeyword_iff] at hkeyword
        exact .later hempty (.later hshape (.here (not_not_intro hkeyword)))
      · rename_i hkeyword
        rw [isKeyword_iff] at hkeyword
        split at h
        · rename_i hcondition
          cases h
          rw [isCondition_iff] at hcondition
          exact .later hempty (.later hshape (.later hkeyword (.here (not_not_intro hcondition))))
        · cases h

end Identifier

/-! ## Gates for identifiers -/

/-- The outcome of a gate on a word. Exactly the identifiers are let in, with their text as it is;
of any other word the first rule is told that it breaks. -/
structure Admits {ε α : Type} (word : String) (outcome : Except ε α) (value : Identifier → α)
    (message : ε → String) : Prop where
  succeeds_iff : (∃ a, outcome = .ok a) ↔ isIdentifier word = true
  keepsText : ∀ a, outcome = .ok a → ∃ name : Identifier, value name = a ∧ name.text = word
  firstReason : ∀ e, outcome = .error e → ∃ reason, FirstBroken (rules word) reason ∧
    message e = "Invalid identifier: '" ++ word ++ "' " ++ reason

/-- The fault that a word is reported for is about the first rule that it breaks. -/
theorem exists_reason_of_readIdentifier {word : String} {fault : Fault}
    (h : readIdentifier word = .error fault) :
    isIdentifier word = false ∧ ∃ reason, FirstBroken (rules word) reason ∧
      fault.toText = "Invalid identifier: '" ++ word ++ "' " ++ reason := by
  unfold readIdentifier Identifier.parse at h
  split at h
  · rename_i why hwhy
    cases h
    have hinvalid : ¬ isIdentifier word = true := by
      rw [← Identifier.rejection?_eq_none_iff, hwhy]
      nofun
    refine ⟨Bool.eq_false_iff.mpr hinvalid, why.reason,
      Identifier.firstBroken_of_rejection? hwhy, ?_⟩
    simp only [Fault.toText, Fault.family, Fault.Family.headed, Fault.Family.heading,
      Fault.message, ← String.append_assoc]
    rfl
  · cases h

/-- A gate that makes of a word what becomes of the word alone. -/
theorem admits_of_readIdentifier {ε α : Type} {word : String} {outcome : Except ε α}
    {value : Identifier → α} {message : ε → String}
    (hok : ∀ name, readIdentifier word = .ok name → outcome = .ok (value name))
    (herror : ∀ fault, readIdentifier word = .error fault →
      ∃ e, outcome = .error e ∧ message e = fault.toText) :
    Admits word outcome value message := by
  cases hread : readIdentifier word with
  | ok name =>
    have hrun := hok name hread
    obtain rfl := readIdentifier_eq_ok_iff.mp hread
    refine ⟨iff_of_true ⟨_, hrun⟩ name.valid, ?_, ?_⟩
    · intro a ha
      rw [hrun] at ha
      exact ⟨name, Except.ok.inj ha, rfl⟩
    · intro e he
      rw [hrun] at he
      cases he
  | error fault =>
    obtain ⟨e, hrun, hmessage⟩ := herror fault hread
    obtain ⟨hinvalid, reason, hreason, htext⟩ := exists_reason_of_readIdentifier hread
    refine ⟨iff_of_false ?_ (by simp [hinvalid]), ?_, ?_⟩
    · rintro ⟨a, ha⟩
      rw [hrun] at ha
      cases ha
    · intro a ha
      rw [hrun] at ha
      cases ha
    · intro other hother
      rw [hrun] at hother
      cases hother
      exact ⟨reason, hreason, hmessage.trans htext⟩

theorem admits_word (word : String) : Admits word (readIdentifier word) id Fault.toText :=
  admits_of_readIdentifier (fun _ h ↦ h) fun fault h ↦ ⟨fault, h, rfl⟩

/-- A string that is no identifier is refused once it has been read. -/
theorem Identifier.reader_of_error {word : String} {fault : Fault}
    (h : readIdentifier word = .error fault) (rest : List Char) :
    Identifier.reader (stringChars word ++ rest) =
      .error ⟨.mismatch (.rejected fault), rest, none⟩ := by
  rw [Identifier.reader, bind_apply, takesBack_stringValue word rest]
  simp only [h]
  rfl

/-- A string in a document is judged like the bare word. -/
theorem admits_string (word : String) :
    Admits word (Json.decode (fun _ ↦ Identifier.reader) (Document.string word).toText) id
      fun failure ↦ failure.cause.message := by
  apply admits_of_readIdentifier
  · intro name hname
    obtain rfl := readIdentifier_eq_ok_iff.mp hname
    exact decode_of_takesBack (d := name.document) name.takesBack_reader
  · intro fault hfault
    have hread := Identifier.reader_of_error hfault []
    refine ⟨⟨.mismatch (.rejected fault), [], none⟩, decode_of_error ?_, rfl⟩
    rw [Document.toList_toText, Document.compact, ← hread, List.append_nil]

/-- Inside of a call the same string is refused in the same way. -/
theorem Label.reader_call_of_error {word : String} {fault : Fault}
    (h : readIdentifier word = .error fault) (budget : Nat) :
    Label.reader (budget + 1) (Document.object [(Kind.call.spelling, .string word)]).compact =
      .error ⟨.mismatch (.rejected fault), ['\x7d'], none⟩ := by
  have htext : (Document.object [(Kind.call.spelling, .string word)]).compact =
      '\x7b' :: stringChars Kind.call.spelling ++ ':' :: (stringChars word ++ ['\x7d']) := by
    simp [Document.compact, Document.compactMembers]
  have hread := Identifier.reader_of_error h ['\x7d']
  rw [htext, Label.reader, variant, bind_apply, List.cons_append, upcoming_cons (by decide)]
  simp only
  rw [← List.cons_append, taggedVariant_string, Label.lookup_payload]
  simp [Label.payload, Payload.value, hread]

/-- So is the name in a CALL. -/
theorem admits_call (word : String) :
    Admits word
      (Json.decode Label.reader (Document.object [(Kind.call.spelling, .string word)]).toText)
      Label.call fun failure ↦ failure.cause.message := by
  apply admits_of_readIdentifier
  · intro name hname
    obtain rfl := readIdentifier_eq_ok_iff.mp hname
    exact decode_of_takesBack (d := (Label.call name).document)
      ((Label.call name).takesBack_reader (nestingLimit - 1))
  · intro fault hfault
    refine ⟨⟨.mismatch (.rejected fault), ['\x7d'], none⟩, decode_of_error ?_, rfl⟩
    rw [Document.toList_toText]
    exact Label.reader_call_of_error hfault (nestingLimit - 1)

/-! ## Conditions -/

/-- Small letters throughout, with a hyphen before each capital but one at the start. -/
def hyphenated (title : String) : String :=
  match title.toList with
  | [] => ""
  | first :: others =>
    String.ofList (first.toLower :: others.flatMap fun c ↦
      if c.isUpper then ['-', c.toLower] else [c])

namespace Condition

/-- The name of a condition in one word, from which its name in documents is made. -/
def title : Condition → String
  | nextIsEmpty => "NextIsEmpty"
  | nextIsNotEmpty => "NextIsNotEmpty"
  | nextIsWall => "NextIsWall"
  | nextIsNotWall => "NextIsNotWall"
  | nextIsFriend => "NextIsFriend"
  | nextIsNotFriend => "NextIsNotFriend"
  | nextIsEnemy => "NextIsEnemy"
  | nextIsNotEnemy => "NextIsNotEnemy"
  | random => "Random"
  | always => "True"

/-- The word for a condition is its title in lower case with hyphens. -/
theorem hyphenated_title (c : Condition) : hyphenated c.title = c.spelling := by
  cases c <;> decide

theorem isCondition_iff_exists {word : String} :
    isCondition word = true ↔ ∃ c : Condition, c.spelling = word := by
  have htable : conditions = all.map spelling := rfl
  rw [isCondition_iff, htable, List.mem_map]
  simp [mem_all]

theorem readCondition_eq_ok_iff {word : String} {c : Condition} :
    readCondition word = .ok c ↔ c.spelling = word := by
  rw [readCondition]
  constructor
  · intro h
    split at h
    · rename_i found hfound
      rw [← Except.ok.inj h]
      exact spelling_of_parse? hfound
    · cases h
  · rintro rfl
    rw [parse?_spelling]

theorem decode_string_eq_ok_iff {word : String} {c : Condition} :
    Json.decode Condition.reader (Document.string word).toText = .ok c ↔ c.spelling = word := by
  rw [decode_toText_eq_ok_iff (Condition.decides_reader (.string word) nestingLimit)]
  constructor
  · rintro ⟨n, -, hspelled⟩
    cases hspelled with
    | name => rfl
  · rintro rfl
    exact ⟨0, Nat.zero_le nestingLimit, .name c⟩

end Condition

/-- Every word is an identifier, a condition or neither of them by the same rules, whether it is
asked for, read alone or read from a document; and nobody takes it for another word. -/
theorem words_classified_alike (word : String) :
    (isIdentifier word = true ↔ IsShaped word ∧ word ∉ keywords ∧ word ∉ conditions) ∧
    (isIdentifier word = true → ∀ c ∈ word.toList, c.toNat < 128 ∧ c ≠ '\n') ∧
    Admits word (readIdentifier word) id Fault.toText ∧
    Admits word (Json.decode (fun _ ↦ Identifier.reader) (Document.string word).toText) id
      (fun failure ↦ failure.cause.message) ∧
    Admits word (Json.decode Label.reader (Document.object [("CALL", .string word)]).toText)
      Label.call (fun failure ↦ failure.cause.message) ∧
    ((∃ c, readCondition word = .ok c) ↔ isCondition word = true) ∧
    ((∃ c, Json.decode Condition.reader (Document.string word).toText = .ok c) ↔
      isCondition word = true) ∧
    ∀ c : Condition, (readCondition word = .ok c ↔ c.spelling = word) ∧
      (Json.decode Condition.reader (Document.string word).toText = .ok c ↔
        hyphenated c.title = word) ∧
      hyphenated c.title = c.spelling := by
  refine ⟨isIdentifier_iff, ascii_of_isIdentifier, admits_word word, admits_string word,
    admits_call word, ?_, ?_, fun c ↦ ?_⟩
  · rw [Condition.isCondition_iff_exists]
    exact exists_congr fun _ ↦ Condition.readCondition_eq_ok_iff
  · rw [Condition.isCondition_iff_exists]
    exact exists_congr fun _ ↦ Condition.decode_string_eq_ok_iff
  · rw [c.hyphenated_title]
    exact ⟨Condition.readCondition_eq_ok_iff, Condition.decode_string_eq_ok_iff, rfl⟩

/-- A word with a digit and an underscore is an identifier. One that has the shape of an identifier
and names a condition is none, neither alone nor in a call, and is read as that condition. -/
theorem words_classified_alike_at_reserved_word :
    (isIdentifier "walk_2" = true ∧ ∀ c ∈ "walk_2".toList, c.toNat < 128 ∧ c ≠ '\n') ∧
    (IsShaped "random" ∧ ¬ ∃ name, readIdentifier "random" = .ok name) ∧
    (¬ ∃ label, Json.decode Label.reader
      (Document.object [("CALL", .string "random")]).toText = .ok label) ∧
    Json.decode Condition.reader (Document.string "random").toText = .ok .random := by
  have hwalk : isIdentifier "walk_2" = true := by decide
  have hrandom : isIdentifier "random" ≠ true := by decide
  have hshaped : IsShaped "random" := hasIdentifierShape_iff.mp (by decide)
  obtain ⟨-, hascii, -⟩ := words_classified_alike "walk_2"
  obtain ⟨-, -, hword, -, hcall, -, -, hcondition⟩ := words_classified_alike "random"
  exact ⟨⟨hwalk, hascii hwalk⟩, ⟨hshaped, fun h ↦ hrandom (hword.succeeds_iff.mp h)⟩,
    fun h ↦ hrandom (hcall.succeeds_iff.mp h), (hcondition .random).2.1.mpr (by decide)⟩

end BLTree

import BLTree.Json.Document
import BLTree.Proofs.Json.Results

/-!
# Reading strings and integers back

What the readers make of single characters, words, strings and integers as documents write them. A
reader takes a text back when it reads exactly that text off the front, whatever follows; an integer
needs a character behind it that does not continue a numeral.
-/

namespace BLTree.Json

/-- A numeral tells its number. -/
theorem eq_of_toString_eq {m n : Nat} (h : toString m = toString n) : m = n := by
  rw [Nat.toString_eq_ofList_toDigits, Nat.toString_eq_ofList_toDigits, String.ofList_inj] at h
  have hvalue := congrArg (Nat.ofDigitChars 10 · 0) h
  rwa [Nat.ofDigitChars_ten_toDigits, Nat.ofDigitChars_ten_toDigits] at hvalue

namespace Reader

variable {α : Type}

@[simp]
theorem get_apply (text : List Char) : (get : Reader (List Char)) text = .ok (text, text) := rfl

@[simp]
theorem set_apply (text rest : List Char) : (set rest : Reader PUnit) text = .ok ((), rest) := rfl

@[simp]
theorem peek_apply (text : List Char) : peek text = .ok (text.head?, text) := rfl

@[simp]
theorem advance_apply (text : List Char) : advance text = .ok ((), text.tail) := rfl

/-- A character that is no blank is seen at once and left where it is. -/
theorem upcoming_cons {c : Char} (h : isBlank c = false) (rest : List Char) :
    upcoming (c :: rest) = .ok (some c, c :: rest) := by
  change (Except.ok (((c :: rest).dropWhile isBlank).head?, (c :: rest).dropWhile isBlank) :
    Except Failure _) = _
  rw [List.dropWhile_cons_of_neg (by simp [h])]
  rfl

theorem demand_cons {c : Char} (h : isBlank c = false) (rest : List Char) :
    demand (c :: rest) = .ok (c, c :: rest) := by
  rw [demand, bind_apply, upcoming_cons h]
  rfl

/-- The reader takes exactly `text` off the front and gives `a`. -/
def TakesBack (r : Reader α) (text : List Char) (a : α) : Prop :=
  ∀ rest, r (text ++ rest) = .ok (a, rest)

/-- A word is read by comparing its characters. -/
theorem takesBack_word (characters : List Char) : TakesBack (word characters) characters () := by
  intro rest
  induction characters with
  | nil => rfl
  | cons c others ih => simpa [word] using ih

/-! ## Strings -/

theorem hexDigit?_digitChar {d : Nat} (h : d < 16) : hexDigit? (Nat.digitChar d) = some d := by
  revert d
  decide

theorem four_le_byteLength (a b c d : Char) : 4 ≤ byteLength [a, b, c, d] := by
  have ha := a.utf8Size_pos
  have hb := b.utf8Size_pos
  have hc := c.utf8Size_pos
  have hd := d.utf8Size_pos
  simp only [byteLength]
  omega

/-- The two digits that are written behind two zeros are read back. -/
theorem hexQuad_digitChar {high low : Nat} (hhigh : high < 16) (hlow : low < 16)
    (rest : List Char) :
    hexQuad ('0' :: '0' :: Nat.digitChar high :: Nat.digitChar low :: rest) =
      .ok (high * 16 + low, rest) := by
  have hlength := four_le_byteLength '0' '0' (Nat.digitChar high) (Nat.digitChar low)
  have htake : ('0' :: '0' :: Nat.digitChar high :: Nat.digitChar low :: rest).take 4 =
      ['0', '0', Nat.digitChar high, Nat.digitChar low] := rfl
  have hzero : hexDigit? '0' = some 0 := rfl
  rw [hexQuad, htake, if_neg (by omega)]
  simp [hzero, hexDigit?_digitChar hhigh, hexDigit?_digitChar hlow]

/-- The escape of a control character by its number. -/
theorem escape_numbered {c : Char} (h : c.toNat < 0x20) (rest : List Char) :
    escape ('u' :: '0' :: '0' :: Nat.digitChar (c.toNat / 16) ::
        Nat.digitChar (c.toNat % 16) :: rest) =
      .ok (c, rest) := by
  have hquad := @hexQuad_digitChar (c.toNat / 16) (c.toNat % 16) (by omega) (by omega) rest
  have hvalue : c.toNat / 16 * 16 + c.toNat % 16 = c.toNat := by omega
  rw [hvalue] at hquad
  have htrailing : isTrailing c.toNat = false := by
    simp only [isTrailing, decide_eq_false_iff_not]
    omega
  have hleading : isLeading c.toNat = false := by
    simp only [isLeading, decide_eq_false_iff_not]
    omega
  simp [escape, numberedChar, hquad, htrailing, hleading, Char.ofNat_toNat]

/-- Every character is read back from the form in which it is written inside a string. -/
theorem stringStep_escaped (done : List Char) (c : Char) (rest : List Char) :
    stringStep done (escaped c ++ rest) = .ok (.inl (c :: done), rest) := by
  unfold escaped
  split
  iterate 7 rfl
  rename_i hquote hbackslash _ _ _ _ _
  split
  · rename_i hcontrol
    have hescape := escape_numbered hcontrol rest
    simp [stringStep, hescape]
  · rename_i hcontrol
    have hcontrol' : isControl c = false := by
      simp only [isControl, decide_eq_false_iff_not]
      exact hcontrol
    simp [stringStep, hcontrol']

/-- One round for each character and one for the closing quote. -/
theorem repeatFor_stringStep {text : List Char} {rounds : Nat} (hrounds : text.length < rounds)
    (done rest : List Char) :
    repeatFor stringStep rounds done (text.flatMap escaped ++ '"' :: rest) =
      .ok (String.ofList (done.reverse ++ text), rest) := by
  induction text generalizing rounds done with
  | nil =>
    obtain ⟨rounds, rfl⟩ := Nat.exists_eq_add_one.mpr hrounds
    have hclose : stringStep done ('"' :: rest) =
        .ok (.inr (String.ofList done.reverse), rest) := rfl
    rw [List.append_nil]
    exact repeatFor_inr hclose rounds
  | cons c others ih =>
    obtain ⟨rounds, rfl⟩ := Nat.exists_eq_add_one.mpr (Nat.zero_lt_of_lt hrounds)
    have hothers := ih (by simpa using hrounds) (c :: done)
    rw [List.flatMap_cons, List.append_assoc]
    calc
      repeatFor stringStep (rounds + 1) done
          (escaped c ++ (others.flatMap escaped ++ '"' :: rest)) =
        repeatFor stringStep rounds (c :: done) (others.flatMap escaped ++ '"' :: rest) :=
        repeatFor_inl (stringStep_escaped done c _) rounds
      _ = .ok (String.ofList ((c :: done).reverse ++ others), rest) := hothers
      _ = .ok (String.ofList (done.reverse ++ c :: others), rest) := by simp

theorem one_le_length_escaped (c : Char) : 1 ≤ (escaped c).length := by
  unfold escaped
  split
  iterate 7 simp
  split <;> simp

/-- No character is written as nothing, so a round for each character is within the rounds that are
granted. -/
theorem length_le_length_flatMap_escaped (text : List Char) :
    text.length ≤ (text.flatMap escaped).length := by
  induction text with
  | nil => simp
  | cons c others ih =>
    have hc := one_le_length_escaped c
    simp only [List.length_cons, List.flatMap_cons, List.length_append]
    omega

/-- A string is written with escapes where they are needed and read back to itself. -/
theorem takesBack_string (text : String) :
    TakesBack string (text.toList.flatMap escaped ++ ['"']) text := by
  intro rest
  have hrounds : text.toList.length <
      (text.toList.flatMap escaped ++ '"' :: rest).length + 2 := by
    have hlength := length_le_length_flatMap_escaped text.toList
    rw [List.length_append]
    omega
  rw [string, repeatFrom, bind_apply, get_apply, List.append_assoc, List.singleton_append]
  simpa using repeatFor_stringStep hrounds [] rest

theorem takesBack_stringValue (text : String) : TakesBack stringValue (stringChars text) text := by
  intro rest
  have hstring := takesBack_string text rest
  rw [stringChars, stringValue, bind_apply, List.cons_append, List.cons_append,
    demand_cons (by decide)]
  simpa using hstring

/-! ## Integers -/

/-- What may stand behind a numeral: the end of the text, or a character that does not continue
it. -/
def EndsNumeral (rest : List Char) : Prop :=
  ∀ c, rest.head? = some c → c.isDigit = false ∧ c ≠ '.' ∧ c ≠ 'e' ∧ c ≠ 'E'

/-- A comma ends a numeral. -/
theorem endsNumeral_comma (rest : List Char) : EndsNumeral (',' :: rest) := by
  intro c hc
  cases hc
  decide

/-- What may stand behind the digits inside a numeral. -/
def EndsDigits (rest : List Char) : Prop := ∀ c, rest.head? = some c → c.isDigit = false

/-- What ends a numeral ends its digits. -/
theorem EndsNumeral.endsDigits {rest : List Char} (h : EndsNumeral rest) : EndsDigits rest :=
  fun c hc ↦ (h c hc).1

/-- Digits are read up to the first character that is none. -/
theorem digits_append {digitChars rest : List Char} (hdigits : ∀ c ∈ digitChars, c.isDigit = true)
    (hrest : EndsDigits rest) : digits (digitChars ++ rest) = .ok (digitChars, rest) := by
  have htake : rest.takeWhile Char.isDigit = [] := by
    cases rest with
    | nil => rfl
    | cons c others => exact List.takeWhile_cons_of_neg (by simp [hrest c rfl])
  have hdrop : rest.dropWhile Char.isDigit = rest := by
    cases rest with
    | nil => rfl
    | cons c others => exact List.dropWhile_cons_of_neg (by simp [hrest c rfl])
  simp [digits, List.takeWhile_append_of_pos hdigits, List.dropWhile_append_of_pos hdigits, htake,
    hdrop]

/-- No positive number is written with a leading zero, which would stand alone. -/
theorem head_toDigits_ne_zero {n : Nat} (h : 0 < n) : (Nat.toDigits 10 n).head? ≠ some '0' := by
  induction n using Nat.strongRecOn with
  | _ n ih =>
    by_cases hsmall : n < 10
    · have hdigit : ∀ d < 10, 0 < d → Nat.digitChar d ≠ '0' := by decide
      rw [Nat.toDigits_of_lt_base hsmall]
      simpa using hdigit n hsmall h
    · rw [Nat.toDigits_of_base_le (by decide) (by omega), List.head?_append]
      have hhead := ih (n / 10) (by omega) (by omega)
      cases hdigits : (Nat.toDigits 10 (n / 10)).head? with
      | none => simp [List.head?_eq_none_iff] at hdigits
      | some c =>
        rw [hdigits] at hhead
        simpa using hhead

/-- The digits of a number are read back as one whole part. -/
theorem wholePart_toDigits (unfinished : Cause) (n : Nat) {rest : List Char}
    (hrest : EndsDigits rest) :
    wholePart unfinished (Nat.toDigits 10 n ++ rest) = .ok (Nat.toDigits 10 n, rest) := by
  have hall : ∀ c ∈ Nat.toDigits 10 n, c.isDigit = true := fun c hc ↦
    Nat.isDigit_of_mem_toDigits (by decide) (by decide) hc
  have hread := digits_append hall hrest
  rcases Nat.eq_zero_or_pos n with rfl | hpos
  · have hnext : rest.head?.any Char.isDigit = false := by
      cases hhead : rest.head? with
      | none => rfl
      | some c => simp [hrest c hhead]
    simp [wholePart, hnext]
  · have hzero := head_toDigits_ne_zero hpos
    cases hdigits : Nat.toDigits 10 n with
    | nil => simp at hdigits
    | cons c others =>
      rw [hdigits] at hall hread hzero
      have hc : c.isDigit = true := hall c List.mem_cons_self
      have hne : c ≠ '0' := fun h ↦ hzero (by rw [h]; rfl)
      simpa [wholePart, hc, hne] using hread

theorem decimalPlaces_of_ends (unfinished : Cause) {rest : List Char} (hrest : EndsNumeral rest) :
    decimalPlaces unfinished rest = .ok ([], rest) := by
  have hpoint : rest.head? ≠ some '.' := fun h ↦ (hrest '.' h).2.1 rfl
  simp [decimalPlaces, hpoint]

theorem exponentPart_of_ends (unfinished : Cause) {rest : List Char} (hrest : EndsNumeral rest) :
    exponentPart unfinished rest = .ok (none, rest) := by
  have hmark : (rest.head?.any fun c ↦ c == 'e' || c == 'E') = false := by
    cases hhead : rest.head? with
    | none => rfl
    | some c => simp [(hrest c hhead).2.2]
  simp [exponentPart, hmark]

/-- Further digits never make a number smaller. -/
theorem le_ofDigitChars (n : Nat) (digitChars : List Char) :
    n ≤ Nat.ofDigitChars 10 digitChars n := by
  induction digitChars generalizing n with
  | nil => simp
  | cons c others ih =>
    rw [Nat.ofDigitChars_cons]
    have := ih (10 * n + (c.toNat - '0'.toNat))
    omega

/-- As long as the whole number stays within the bound, no digit is left over. -/
theorem accumulate_eq {bound n : Nat} {digitChars : List Char}
    (h : Nat.ofDigitChars 10 digitChars n ≤ bound) :
    accumulate bound n digitChars = (Nat.ofDigitChars 10 digitChars n, []) := by
  induction digitChars generalizing n with
  | nil => simp [accumulate]
  | cons c others ih =>
    rw [Nat.ofDigitChars_cons] at h ⊢
    have hvalue : n * 10 + digitValue c = 10 * n + (c.toNat - '0'.toNat) := by
      rw [digitValue, Nat.mul_comm]
    have hle := le_ofDigitChars (10 * n + (c.toNat - '0'.toNat)) others
    rw [accumulate, hvalue, if_pos (by omega), ih h]

theorem accumulate_toDigits {bound n : Nat} (h : n ≤ bound) :
    accumulate bound 0 (Nat.toDigits 10 n) = (n, []) := by
  have hvalue : Nat.ofDigitChars 10 (Nat.toDigits 10 n) 0 = n := Nat.ofDigitChars_ten_toDigits
  calc
    accumulate bound 0 (Nat.toDigits 10 n) =
        (Nat.ofDigitChars 10 (Nat.toDigits 10 n) 0, []) := accumulate_eq (by rwa [hvalue])
    _ = (n, []) := by rw [hvalue]

/-- Up to the greatest number of 64 bits nothing is rounded. -/
theorem number_natural {n : Nat} (hn : n ≤ greatestNatural) {rest : List Char}
    (hrest : EndsNumeral rest) :
    number false (Nat.toDigits 10 n ++ rest) = .ok (.natural n, rest) := by
  simp [number, wholePart_toDigits _ n hrest.endsDigits, decimalPlaces_of_ends _ hrest,
    exponentPart_of_ends _ hrest, accumulate_toDigits hn, accumulate]

/-- Below zero the bound is the least integer of 64 bits. -/
theorem number_negated {n : Nat} (hpos : 0 < n) (hn : n ≤ greatestNegated) {rest : List Char}
    (hrest : EndsNumeral rest) :
    number true (Nat.toDigits 10 n ++ rest) = .ok (.negated n, rest) := by
  have hnatural : n ≤ greatestNatural := Nat.le_trans hn (by decide)
  simp [number, wholePart_toDigits _ n hrest.endsDigits, decimalPlaces_of_ends _ hrest,
    exponentPart_of_ends _ hrest, accumulate_toDigits hnatural, accumulate, Nat.ne_of_gt hpos, hn]

/-- An integer is written as a sign and the digits of its absolute value. -/
theorem chars_ofInt (n : Int) :
    (Numeral.ofInt n).chars = (if n < 0 then ['-'] else []) ++ Nat.toDigits 10 n.natAbs := by
  simp [Numeral.chars, Numeral.ofInt]

theorem head_toDigits_isDigit (n : Nat) :
    ∃ c others, Nat.toDigits 10 n = c :: others ∧ c.isDigit = true := by
  cases hdigits : Nat.toDigits 10 n with
  | nil => simp at hdigits
  | cons c others =>
    have hmem : c ∈ Nat.toDigits 10 n := by
      rw [hdigits]
      exact List.mem_cons_self
    exact ⟨c, others, rfl, Nat.isDigit_of_mem_toDigits (by decide) (by decide) hmem⟩

theorem isBlank_of_isDigit {c : Char} (h : c.isDigit = true) : isBlank c = false := by
  cases hblank : isBlank c with
  | false => rfl
  | true =>
    simp only [isBlank, Bool.or_eq_true, beq_iff_eq] at hblank
    rcases hblank with ((rfl | rfl) | rfl) | rfl <;> simp at h

theorem ne_minus_of_isDigit {c : Char} (h : c.isDigit = true) : c ≠ '-' := by
  intro hc
  subst hc
  simp at h

theorem integerValue_negated {n : Nat} (hpos : 0 < n) (hn : n ≤ greatestNegated)
    {rest : List Char} (hrest : EndsNumeral rest) :
    integerValue ('-' :: Nat.toDigits 10 n ++ rest) = .ok (Int64.ofInt (-n), rest) := by
  rw [integerValue, bind_apply, List.cons_append, demand_cons (by decide)]
  simp [number_negated hpos hn hrest]

theorem integerValue_natural {n : Nat} (hn : n < greatestNegated) {rest : List Char}
    (hrest : EndsNumeral rest) :
    integerValue (Nat.toDigits 10 n ++ rest) = .ok (Int64.ofNat n, rest) := by
  have hnumber := number_natural (Nat.le_of_lt (Nat.lt_trans hn (by decide))) hrest
  obtain ⟨c, others, hdigits, hc⟩ := head_toDigits_isDigit n
  rw [hdigits, List.cons_append] at hnumber ⊢
  have hsign : c ≠ '-' := ne_minus_of_isDigit hc
  have hsign' : (c == '-') = false := beq_false_of_ne hsign
  rw [integerValue, bind_apply, demand_cons (isBlank_of_isDigit hc)]
  simp [hc, hsign, hsign', hnumber, hn]

/-- Every 64-bit integer is read back from its numeral. -/
theorem integerValue_chars (n : Int64) {rest : List Char} (hrest : EndsNumeral rest) :
    integerValue ((Numeral.ofInt n.toInt).chars ++ rest) = .ok (n, rest) := by
  have hmin := n.le_toInt
  have hmax := n.toInt_lt
  have hlimit : greatestNegated = 2 ^ 63 := rfl
  rw [chars_ofInt]
  by_cases hn : n.toInt < 0
  · have hvalue : -(n.toInt.natAbs : Int) = n.toInt := by omega
    rw [if_pos hn, List.singleton_append]
    calc
      integerValue ('-' :: Nat.toDigits 10 n.toInt.natAbs ++ rest) =
          .ok (Int64.ofInt (-n.toInt.natAbs), rest) :=
        integerValue_negated (by omega) (by omega) hrest
      _ = .ok (n, rest) := by rw [hvalue, Int64.ofInt_toInt]
  · have hvalue : (n.toInt.natAbs : Int) = n.toInt := by omega
    rw [if_neg hn, List.nil_append]
    calc
      integerValue (Nat.toDigits 10 n.toInt.natAbs ++ rest) =
          .ok (Int64.ofNat n.toInt.natAbs, rest) :=
        integerValue_natural (by omega) hrest
      _ = .ok (n, rest) := by rw [← Int64.ofInt_eq_ofNat, hvalue, Int64.ofInt_toInt]

end Reader

end BLTree.Json

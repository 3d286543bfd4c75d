import BLTree.Proofs.Json.Structures

/-!
# Passing over documents

`skipValue` passes over the compact text of every document, whatever the document is and however
deeply it is nested. Its loop keeps the open brackets as a list. The statement that carries the
induction is about one value under any open brackets: once the value is passed, the loop goes on as
it does behind a value.
-/

namespace BLTree.Json

/-- Induction with the hypothesis at every item of a list and at every member of an object. -/
@[elab_as_elim]
theorem Document.induct {motive : Document → Prop} (null : motive .null)
    (boolean : ∀ value, motive (.boolean value)) (number : ∀ value, motive (.number value))
    (string : ∀ value, motive (.string value))
    (array : ∀ items, (∀ item ∈ items, motive item) → motive (.array items))
    (object : ∀ members, (∀ member ∈ members, motive member.2) → motive (.object members)) :
    ∀ d : Document, motive d
  | .null => null
  | .boolean value => boolean value
  | .number value => number value
  | .string value => string value
  | .array items => array items fun item _ ↦
    induct null boolean number string array object item
  | .object members => object members fun member _ ↦
    induct null boolean number string array object member.2
termination_by d => sizeOf d
decreasing_by
  · have hitem := List.sizeOf_lt_of_mem ‹_ ∈ items›
    simp only [Document.array.sizeOf_spec]
    omega
  · have hmember := List.sizeOf_lt_of_mem ‹_ ∈ members›
    have hvalue : sizeOf member = 1 + sizeOf member.1 + sizeOf member.2 := rfl
    simp only [Document.object.sizeOf_spec]
    omega

namespace Reader

/-- What may stand behind a value in a compact text. -/
def Follows (rest : List Char) : Prop :=
  ∀ c, rest.head? = some c → c = ',' ∨ c = ']' ∨ c = '\x7d'

theorem follows_nil : Follows [] := nofun

theorem follows_cons {c : Char} (h : c = ',' ∨ c = ']' ∨ c = '\x7d') (rest : List Char) :
    Follows (c :: rest) := by
  intro d hd
  obtain rfl := Option.some.inj hd
  exact h

/-- No comma and no closing bracket can be taken for a further character of a numeral. -/
theorem Follows.endsNumeral {rest : List Char} (h : Follows rest) : EndsNumeral rest := by
  intro c hc
  rcases h c hc with rfl | rfl | rfl <;> decide

/-- One round passes over one character, however it is escaped. -/
theorem skipStringStep_escaped (c : Char) (rest : List Char) :
    skipStringStep () (escaped c ++ rest) = .ok (.inl (), rest) := by
  unfold escaped
  split
  iterate 7 rfl
  rename_i hquote hbackslash _ _ _ _ _
  split
  · rename_i hcontrol
    have hquad := @hexQuad_digitChar (c.toNat / 16) (c.toNat % 16) (by omega) (by omega) rest
    simp [skipStringStep, skipEscape, hquad]
  · rename_i hcontrol
    have hcontrol' : isControl c = false := by
      simp only [isControl, decide_eq_false_iff_not]
      exact hcontrol
    simp [skipStringStep, hcontrol']

theorem repeatFor_skipStringStep {text : List Char} {rounds : Nat} (hrounds : text.length < rounds)
    (rest : List Char) :
    repeatFor skipStringStep rounds () (text.flatMap escaped ++ '"' :: rest) = .ok ((), rest) := by
  induction text generalizing rounds with
  | nil =>
    obtain ⟨rounds, rfl⟩ := Nat.exists_eq_add_one.mpr hrounds
    exact repeatFor_inr (rfl : skipStringStep () ('"' :: rest) = .ok (.inr (), rest)) rounds
  | cons c others ih =>
    obtain ⟨rounds, rfl⟩ := Nat.exists_eq_add_one.mpr (Nat.zero_lt_of_lt hrounds)
    rw [List.flatMap_cons, List.append_assoc, repeatFor_inl (skipStringStep_escaped c _)]
    exact ih (by simpa using hrounds)

/-- The body of a string is passed over up to its closing quotation mark and no further. -/
theorem takesBack_skipString (text : String) :
    TakesBack skipString (text.toList.flatMap escaped ++ ['"']) () := by
  intro rest
  have hrounds : text.toList.length <
      (text.toList.flatMap escaped ++ '"' :: rest).length + 2 := by
    have hlength := length_le_length_flatMap_escaped text.toList
    rw [List.length_append]
    omega
  rw [skipString, repeatFrom, bind_apply, get_apply, List.append_assoc, List.singleton_append]
  exact repeatFor_skipStringStep hrounds rest

theorem isDigit_digitChar {d : Nat} (h : d < 10) : (Nat.digitChar d).isDigit = true := by
  revert d
  decide

theorem endsDigits_cons {c : Char} (h : c.isDigit = false) (rest : List Char) :
    EndsDigits (c :: rest) := by
  intro d hd
  obtain rfl := Option.some.inj hd
  exact h

/-- The decimal places of a numeral, with the point before them if there are any. -/
def placeChars (places : List (Fin 10)) : List Char :=
  if places = [] then [] else '.' :: places.map fun d ↦ Nat.digitChar d.val

def exponentChars (exponent : Option Int) : List Char :=
  exponent.elim [] fun e ↦ 'e' :: intChars e

theorem endsDigits_exponentChars (exponent : Option Int) {rest : List Char}
    (hrest : EndsNumeral rest) : EndsDigits (exponentChars exponent ++ rest) := by
  cases exponent with
  | none => exact hrest.endsDigits
  | some e => exact endsDigits_cons (by decide) _

/-- An exponent is read whatever follows the numeral; what it is read as is of no concern here. -/
theorem exponentPart_exponentChars (unfinished : Cause) (exponent : Option Int) :
    ∃ read, ∀ {rest}, EndsNumeral rest →
      exponentPart unfinished (exponentChars exponent ++ rest) = .ok (read, rest) := by
  cases exponent with
  | none => exact ⟨none, exponentPart_of_ends unfinished⟩
  | some e =>
    obtain ⟨c, others, hdigits, hc⟩ := head_toDigits_isDigit e.natAbs
    have hall : ∀ d ∈ Nat.toDigits 10 e.natAbs, d.isDigit = true := fun d hd ↦
      Nat.isDigit_of_mem_toDigits (by decide) (by decide) hd
    have hread : ∀ {rest}, EndsNumeral rest →
        digits (c :: (others ++ rest)) = .ok (c :: others, rest) := by
      intro rest hrest
      have hread := digits_append hall hrest.endsDigits
      rwa [hdigits, List.cons_append] at hread
    by_cases he : e < 0
    · refine ⟨some (true, c :: others), fun hrest ↦ ?_⟩
      simp [exponentChars, intChars, exponentPart, hdigits, he, hc, hread hrest]
    · have hplus : c ≠ '+' := by
        rintro rfl
        simp at hc
      have hminus := ne_minus_of_isDigit hc
      refine ⟨some (false, c :: others), fun hrest ↦ ?_⟩
      simp [exponentChars, intChars, exponentPart, hdigits, he, hc, hplus, hminus, hread hrest]

/-- The decimal places end where the exponent begins, or else where the numeral ends. -/
theorem decimalPlaces_placeChars (unfinished : Cause) (places : List (Fin 10))
    (exponent : Option Int) :
    ∃ read, ∀ {rest}, EndsNumeral rest →
      decimalPlaces unfinished (placeChars places ++ (exponentChars exponent ++ rest)) =
        .ok (read, exponentChars exponent ++ rest) := by
  by_cases hplaces : places = []
  · refine ⟨[], ?_⟩
    intro rest hrest
    have hpoint : (exponentChars exponent ++ rest).head? ≠ some '.' := by
      cases exponent with
      | none => exact fun h ↦ (hrest '.' h).2.1 rfl
      | some e => simp [exponentChars]
    rw [placeChars, if_pos hplaces, List.nil_append, decimalPlaces, bind_apply, peek_apply]
    simp only [if_neg hpoint]
    rfl
  · have hall : ∀ c ∈ places.map fun d ↦ Nat.digitChar d.val, c.isDigit = true := by
      intro c hc
      obtain ⟨d, -, rfl⟩ := List.mem_map.mp hc
      exact isDigit_digitChar d.isLt
    refine ⟨places.map fun d ↦ Nat.digitChar d.val, ?_⟩
    intro rest hrest
    have hread := digits_append hall (endsDigits_exponentChars exponent hrest)
    simp [placeChars, hplaces, decimalPlaces, hread]

theorem endsDigits_placeChars (places : List (Fin 10)) (exponent : Option Int) {rest : List Char}
    (hrest : EndsNumeral rest) :
    EndsDigits (placeChars places ++ (exponentChars exponent ++ rest)) := by
  by_cases hplaces : places = []
  · simpa [placeChars, hplaces] using endsDigits_exponentChars exponent hrest
  · rw [placeChars, if_neg hplaces]
    exact endsDigits_cons (by decide) _

/-- A numeral without its sign is passed over as a whole. -/
theorem skipNumber_chars (whole : Nat) (places : List (Fin 10)) (exponent : Option Int)
    {rest : List Char} (hrest : EndsNumeral rest) :
    skipNumber (Nat.toDigits 10 whole ++ (placeChars places ++ (exponentChars exponent ++ rest))) =
      .ok ((), rest) := by
  have hends := endsDigits_placeChars places exponent hrest
  have hwhole := wholePart_toDigits (.breach .invalidNumber) whole hends
  obtain ⟨_, hplaces⟩ := decimalPlaces_placeChars (.breach .invalidNumber) places exponent
  obtain ⟨_, hexponent⟩ := exponentPart_exponentChars (.breach .invalidNumber) exponent
  simp [skipNumber, hwhole, hplaces hrest, hexponent hrest]

/-- How the loop goes on with the brackets that a round has left open. -/
def goOn (rounds : Nat) :
    Except Failure (List Bracket × List Char) → Except Failure (Unit × List Char)
  | .ok ([], rest) => .ok ((), rest)
  | .ok (bracket :: others, rest) => repeatFor skipStep rounds (bracket :: others) rest
  | .error failure => .error failure

/-- The loop of `skipValue` unrolled once. -/
theorem repeatFor_skipStep (rounds : Nat) (brackets : List Bracket) (text : List Char) :
    repeatFor skipStep (rounds + 1) brackets text = goOn rounds (skipPiece brackets text) := by
  rw [repeatFor, bind_apply, skipStep, bind_apply]
  cases skipPiece brackets text with
  | error failure => rfl
  | ok piece =>
    obtain ⟨brackets, rest⟩ := piece
    cases brackets <;> rfl

theorem isBlank_closing (bracket : Bracket) : isBlank bracket.closing = false := by
  cases bracket <;> decide

theorem closing_ne_comma (bracket : Bracket) : bracket.closing ≠ ',' := by
  cases bracket <;> decide

theorem follows_closing (bracket : Bracket) (rest : List Char) :
    Follows (bracket.closing :: rest) := by
  cases bracket with
  | list => exact follows_cons (.inr (.inl rfl)) rest
  | object => exact follows_cons (.inr (.inr rfl)) rest

/-- Behind a comma the loop stays inside the innermost bracket and expects the next key, if there
are keys, and value. -/
theorem skipClosings_comma (bracket : Bracket) (others : List Bracket) {text rest : List Char}
    (h : skipKey bracket text = .ok ((), rest)) :
    skipClosings (bracket :: others) (',' :: text) = .ok (bracket :: others, rest) := by
  rw [skipClosings, bind_apply, upcoming_cons (by decide)]
  simp [h]

/-- The innermost bracket is closed, and what stands around it has been passed as well. -/
theorem skipClosings_closing (bracket : Bracket) (others : List Bracket) (rest : List Char) :
    skipClosings (bracket :: others) (bracket.closing :: rest) = skipClosings others rest := by
  rw [skipClosings, bind_apply, upcoming_cons (isBlank_closing bracket)]
  simp [closing_ne_comma bracket]

/-- An empty list or object is a value that has been passed already. -/
theorem skipOpening_closing (bracket : Bracket) (others : List Bracket) (rest : List Char) :
    skipOpening bracket others (bracket.closing :: rest) = skipClosings others rest := by
  rw [skipOpening, bind_apply, upcoming_cons (isBlank_closing bracket)]
  simp

theorem skipOpening_value (bracket : Bracket) (others : List Bracket) {c : Char}
    {text rest : List Char} (hblank : isBlank c = false) (hclosing : c ≠ bracket.closing)
    (h : skipKey bracket (c :: text) = .ok ((), rest)) :
    skipOpening bracket others (c :: text) = .ok (bracket :: others, rest) := by
  rw [skipOpening, bind_apply, upcoming_cons hblank]
  simp [hclosing, h]

/-- The opening character of a bracket. -/
def Bracket.opening : Bracket → Char
  | list => '['
  | object => '\x7b'

/-- An opening bracket is put on top of those that are open. -/
theorem skipPiece_opening (bracket : Bracket) (others : List Bracket) (text : List Char) :
    skipPiece others (bracket.opening :: text) = skipOpening bracket others text := by
  cases bracket with
  | list =>
    rw [skipPiece, bind_apply, Bracket.opening, demand_cons (by decide)]
    simp
  | object =>
    rw [skipPiece, bind_apply, Bracket.opening, demand_cons (by decide)]
    simp

/-! ## Whole values -/

/-- The loop passes over the document, under any open brackets, in no more rounds than it has
characters. -/
def Passes (d : Document) : Prop :=
  ∃ pieces ≤ d.compact.length, ∀ brackets rounds rest, Follows rest →
    repeatFor skipStep (pieces + rounds) brackets (d.compact ++ rest) =
      goOn rounds (skipClosings brackets rest)

/-- A document that one round passes over. -/
theorem passes_of_skipPiece {d : Document}
    (h : ∀ brackets rest, Follows rest →
      skipPiece brackets (d.compact ++ rest) = skipClosings brackets rest) : Passes d := by
  obtain ⟨c, text, hcompact, -⟩ := d.startsValue_compact
  refine ⟨1, by simp [hcompact], ?_⟩
  intro brackets rounds rest hrest
  rw [Nat.add_comm, repeatFor_skipStep, h brackets rest hrest]

/-- The three words are passed in one round. -/
theorem skipPiece_word {text : String} (h : text ∈ ["null", "true", "false"])
    (brackets : List Bracket) (rest : List Char) :
    skipPiece brackets (text.toList ++ rest) = skipClosings brackets rest := by
  have hword := takesBack_word text.toList rest
  have hdemand : ∃ c tail, text.toList ++ rest = c :: tail ∧ isBlank c = false ∧
      (c = 'n' ∧ text = "null" ∨ c = 't' ∧ text = "true" ∨ c = 'f' ∧ text = "false") := by
    simp only [List.mem_cons, List.not_mem_nil, or_false] at h
    rcases h with rfl | rfl | rfl
    · exact ⟨'n', _, rfl, by decide, by decide⟩
    · exact ⟨'t', _, rfl, by decide, by decide⟩
    · exact ⟨'f', _, rfl, by decide, by decide⟩
  obtain ⟨c, tail, hcons, hblank, hstart⟩ := hdemand
  rw [skipPiece, bind_apply, hcons, demand_cons hblank]
  rw [hcons] at hword
  rcases hstart with ⟨rfl, rfl⟩ | ⟨rfl, rfl⟩ | ⟨rfl, rfl⟩
  all_goals simp only [bind_apply, hword]

theorem passes_null : Passes .null := by
  apply passes_of_skipPiece
  intro brackets rest _
  rw [Document.compact]
  exact skipPiece_word (by decide) brackets rest

theorem passes_boolean (value : Bool) : Passes (.boolean value) := by
  apply passes_of_skipPiece
  intro brackets rest _
  rw [Document.compact]
  cases value with
  | true => exact skipPiece_word (by decide) brackets rest
  | false => exact skipPiece_word (by decide) brackets rest

theorem passes_string (value : String) : Passes (.string value) := by
  apply passes_of_skipPiece
  intro brackets rest _
  have hskip := takesBack_skipString value rest
  rw [Document.compact, stringChars, List.cons_append, List.cons_append, skipPiece, bind_apply,
    demand_cons (by decide)]
  simp only [bind_apply, advance_apply, List.tail_cons, hskip]

/-- A value that starts with a digit is a number. -/
theorem skipPiece_digit {c : Char} (hc : c.isDigit = true) (brackets : List Bracket)
    (text : List Char) :
    skipPiece brackets (c :: text) =
      (skipNumber >>= fun _ ↦ skipClosings brackets) (c :: text) := by
  rw [skipPiece, bind_apply, demand_cons (isBlank_of_isDigit hc)]
  dsimp only
  split
  iterate 7 simp at hc
  rw [if_pos hc]

/-- A sign is passed in front of the numeral, in the same round. -/
theorem passes_number (value : Numeral) : Passes (.number value) := by
  apply passes_of_skipPiece
  intro brackets rest hrest
  have hskip := skipNumber_chars value.whole value.places value.exponent hrest.endsNumeral
  have hchars : value.chars ++ rest = (if value.negative then ['-'] else []) ++
      (Nat.toDigits 10 value.whole ++
        (placeChars value.places ++ (exponentChars value.exponent ++ rest))) := by
    simp [Numeral.chars, placeChars, exponentChars]
  rw [Document.compact, hchars]
  cases value.negative with
  | true =>
    rw [if_pos rfl, List.singleton_append, skipPiece, bind_apply, demand_cons (by decide)]
    simp only [bind_apply, advance_apply, List.tail_cons, hskip]
  | false =>
    obtain ⟨c, others, hdigits, hc⟩ := head_toDigits_isDigit value.whole
    rw [if_neg (by decide), List.nil_append]
    rw [hdigits, List.cons_append] at hskip ⊢
    rw [skipPiece_digit hc, bind_apply, hskip]

/-! ## Lists and objects -/

/-- What a bracket holds, from one entry on: each value with the text of its key, if it has one,
and the comma before it. -/
def entryChars (first : Bool) : List (List Char × Document) → List Char
  | [] => []
  | (key, value) :: entries => separator first ++ (key ++ value.compact) ++ entryChars false entries

/-- The text is that of a key inside the bracket; in a list it is empty. -/
structure IsKey (bracket : Bracket) (key : List Char) : Prop where
  skips : ∀ text, skipKey bracket (key ++ text) = .ok ((), text)
  starts : ∀ value : Document, ∃ c text,
    key ++ value.compact = c :: text ∧ isBlank c = false ∧ c ≠ bracket.closing

theorem isKey_list : IsKey .list [] where
  skips _ := rfl
  starts value := value.startsValue_compact

/-- The key of a member is passed together with its colon. -/
theorem isKey_object (key : String) : IsKey .object (stringChars key ++ [':']) where
  skips text := by
    have hskip := takesBack_skipString key (':' :: text)
    have hcolon := colon_cons text
    rw [skipKey, bind_apply, stringChars, List.cons_append, List.cons_append, List.cons_append,
      upcoming_cons (by decide), List.append_assoc, List.singleton_append]
    simp only [bind_apply, advance_apply, List.tail_cons, hskip, hcolon]
  starts _ := ⟨'"', _, rfl, by decide, by decide⟩

theorem follows_entryChars (bracket : Bracket) (entries : List (List Char × Document))
    (rest : List Char) : Follows (entryChars false entries ++ bracket.closing :: rest) := by
  cases entries with
  | nil => exact follows_closing bracket rest
  | cons entry others => exact follows_cons (.inl rfl) _

/-- From the first value inside a bracket on, the loop passes over all of them and the bracket. -/
theorem repeatFor_entries {bracket : Bracket} {entries : List (List Char × Document)}
    (hkeys : ∀ entry ∈ entries, IsKey bracket entry.1) (hvalues : ∀ entry ∈ entries, Passes entry.2)
    {value : Document} (hvalue : Passes value) :
    ∃ pieces ≤ value.compact.length + (entryChars false entries).length, ∀ others rounds rest,
      repeatFor skipStep (pieces + rounds) (bracket :: others)
          (value.compact ++ (entryChars false entries ++ bracket.closing :: rest)) =
        goOn rounds (skipClosings others rest) := by
  induction entries generalizing value with
  | nil =>
    obtain ⟨pieces, hpieces, hpass⟩ := hvalue
    refine ⟨pieces, by simpa [entryChars] using hpieces, ?_⟩
    intro others rounds rest
    rw [entryChars, List.nil_append, hpass _ _ _ (follows_closing bracket rest),
      skipClosings_closing]
  | cons entry entries ih =>
    obtain ⟨key, next⟩ := entry
    obtain ⟨hkey, hkeys⟩ := List.forall_mem_cons.mp hkeys
    obtain ⟨(hnext : Passes next), hvalues⟩ := List.forall_mem_cons.mp hvalues
    obtain ⟨later, hlater, hloop⟩ := ih hkeys hvalues hnext
    obtain ⟨pieces, hpieces, hpass⟩ := hvalue
    refine ⟨pieces + later, ?_, ?_⟩
    · simp only [entryChars, List.length_append]
      omega
    · intro others rounds rest
      have hskips := hkey.skips
        (next.compact ++ (entryChars false entries ++ bracket.closing :: rest))
      have htext : entryChars false ((key, next) :: entries) ++ bracket.closing :: rest =
          ',' :: (key ++
            (next.compact ++ (entryChars false entries ++ bracket.closing :: rest))) := by
        simp [entryChars, separator]
      rw [Nat.add_assoc, hpass _ _ _ (follows_entryChars bracket _ rest), htext,
        skipClosings_comma bracket others hskips]
      exact hloop others rounds rest

/-- A list or an object is passed over if all of its values are. The first round opens it. -/
theorem passes_bracket {bracket : Bracket} {entries : List (List Char × Document)}
    (hkeys : ∀ entry ∈ entries, IsKey bracket entry.1) (hvalues : ∀ entry ∈ entries, Passes entry.2)
    {d : Document}
    (hcompact : d.compact = bracket.opening :: (entryChars true entries ++ [bracket.closing])) :
    Passes d := by
  cases entries with
  | nil =>
    apply passes_of_skipPiece
    intro others rest _
    rw [hcompact, List.cons_append, skipPiece_opening, entryChars, List.nil_append,
      List.singleton_append, skipOpening_closing]
  | cons entry entries =>
    obtain ⟨key, value⟩ := entry
    obtain ⟨hkey, hkeys⟩ := List.forall_mem_cons.mp hkeys
    obtain ⟨(hvalue : Passes value), hvalues⟩ := List.forall_mem_cons.mp hvalues
    obtain ⟨pieces, hpieces, hloop⟩ := repeatFor_entries hkeys hvalues hvalue
    refine ⟨pieces + 1, ?_, ?_⟩
    · simp only [hcompact, entryChars, List.length_cons, List.length_append]
      omega
    · intro others rounds rest _
      obtain ⟨c, text, hstart, hblank, hclosing⟩ := hkey.starts value
      have hskips := hkey.skips
        (value.compact ++ (entryChars false entries ++ bracket.closing :: rest))
      have htext : d.compact ++ rest = bracket.opening ::
          (key ++ (value.compact ++ (entryChars false entries ++ bracket.closing :: rest))) := by
        simp [hcompact, entryChars, separator]
      rw [← List.append_assoc, hstart, List.cons_append] at hskips
      rw [htext, Nat.add_right_comm, repeatFor_skipStep, skipPiece_opening, ← List.append_assoc,
        hstart, List.cons_append, skipOpening_value bracket others hblank hclosing hskips]
      exact hloop others rounds rest

end Reader

namespace Document

open Reader

/-- The members of an object from one of them on; only the first of all has no comma before it. -/
def membersFrom (first : Bool) : List (String × Document) → List Char
  | [] => []
  | (key, value) :: members =>
    separator first ++ stringChars key ++ ':' :: (value.compact ++ membersFrom false members)

/-- Commas between the members are commas before all members but the first. -/
theorem compactMembers_eq (members : List (String × Document)) :
    compactMembers members = membersFrom true members := by
  induction members with
  | nil => simp [compactMembers, membersFrom]
  | cons member others ih =>
    obtain ⟨key, value⟩ := member
    cases others with
    | nil => simp [compactMembers, membersFrom, separator]
    | cons next others =>
      rw [compactMembers, ih]
      · simp [membersFrom, separator]
      · simp

theorem itemsFrom_eq_entryChars (first : Bool) (items : List Document) :
    itemsFrom first items = entryChars first (items.map fun item ↦ ([], item)) := by
  induction items generalizing first with
  | nil => rfl
  | cons item items ih => simp [itemsFrom, entryChars, ih]

theorem membersFrom_eq_entryChars (first : Bool) (members : List (String × Document)) :
    membersFrom first members =
      entryChars first (members.map fun member ↦ (stringChars member.1 ++ [':'], member.2)) := by
  induction members generalizing first with
  | nil => rfl
  | cons member members ih => simp [membersFrom, entryChars, ih]

/-- Every document is passed over, under any open brackets. -/
theorem passes (d : Document) : Passes d := by
  induction d using Document.induct with
  | null => exact passes_null
  | boolean value => exact passes_boolean value
  | number value => exact passes_number value
  | string value => exact passes_string value
  | array items ih =>
    refine @passes_bracket .list (items.map fun item ↦ ([], item)) ?_ ?_ _ ?_
    · intro entry hentry
      obtain ⟨item, -, rfl⟩ := List.mem_map.mp hentry
      exact isKey_list
    · intro entry hentry
      obtain ⟨item, hitem, rfl⟩ := List.mem_map.mp hentry
      exact ih item hitem
    · rw [compact, compactItems_eq, itemsFrom_eq_entryChars]
      rfl
  | object members ih =>
    refine @passes_bracket .object
      (members.map fun member ↦ (stringChars member.1 ++ [':'], member.2)) ?_ ?_ _ ?_
    · intro entry hentry
      obtain ⟨member, -, rfl⟩ := List.mem_map.mp hentry
      exact isKey_object member.1
    · intro entry hentry
      obtain ⟨member, hmember, rfl⟩ := List.mem_map.mp hentry
      exact ih member hmember
    · rw [compact, compactMembers_eq, membersFrom_eq_entryChars]
      rfl

end Document

/-- A document is passed over as a whole, and what follows it is left. -/
theorem Reader.skipValue_compact (d : Document) {rest : List Char} (hrest : Follows rest) :
    skipValue (d.compact ++ rest) = .ok ((), rest) := by
  obtain ⟨pieces, hpieces, hpass⟩ := d.passes
  obtain ⟨spare, hspare⟩ : ∃ spare, (d.compact ++ rest).length + 2 = pieces + spare := by
    apply Nat.exists_eq_add_of_le
    rw [List.length_append]
    omega
  rw [skipValue, repeatFrom, bind_apply, get_apply]
  dsimp only
  rw [hspare, hpass [] spare rest hrest]
  rfl

end BLTree.Json

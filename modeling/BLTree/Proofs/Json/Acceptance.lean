import BLTree.Proofs.Json.Schema
import BLTree.Proofs.Json.Skipping

/-!
# What readers accept

A reader decides a text when it reads exactly that text off the front and gives exactly the values
that the text stands for, or fails if it stands for none. The rules follow the building blocks of
readers, on the compact texts of all documents and not only of those that some value is written as:
a document of the wrong kind is refused at its first character, a list at its first item too many
or too few, and an object when a member comes twice or is missing.
-/

namespace BLTree.Json

namespace Reader

variable {α β σ : Type}

/-- A sequence succeeds if the first reader does and the second succeeds on what is left. -/
theorem bind_eq_ok_iff {r : Reader α} {f : α → Reader β} {text left : List Char} {b : β} :
    (r >>= f) text = .ok (b, left) ↔
      ∃ a rest, r text = .ok (a, rest) ∧ f a rest = .ok (b, left) := by
  rw [bind_apply]
  cases hr : r text with
  | error failure => simp
  | ok pair =>
    obtain ⟨a, rest⟩ := pair
    simp

theorem Gives.ne_ok {r : Reader α} (h : Gives r fun _ ↦ False) (text : List Char)
    (pair : α × List Char) : r text ≠ .ok pair := fun hrun ↦ h text pair.1 pair.2 hrun

/-! ## Deciding a text -/

def Decides (r : Reader α) (text : List Char) (means : α → Prop) : Prop :=
  ∀ rest, Follows rest → ∀ a left, r (text ++ rest) = .ok (a, left) ↔ means a ∧ left = rest

variable {r : Reader α} {text : List Char} {means : α → Prop}

/-- A reader that takes a text back reads exactly what was written. -/
theorem TakesBack.decides {a : α} (h : TakesBack r text a) : Decides r text (· = a) := by
  intro rest _ b left
  rw [h rest, Except.ok.injEq, Prod.mk.injEq, eq_comm, @eq_comm _ rest]

/-- A text that is never read has no meaning. -/
theorem decides_none (h : ∀ rest pair, r (text ++ rest) ≠ .ok pair) :
    Decides r text fun _ ↦ False := by
  intro rest _ a left
  simp [h rest (a, left)]

theorem Decides.iff {means' : α → Prop} (h : Decides r text means)
    (hmeans : ∀ a, means a ↔ means' a) : Decides r text means' := by
  intro rest hrest a left
  rw [h rest hrest a left, hmeans a]

/-- The reader goes on where the text ends, and reads no more. -/
theorem Decides.bind {f : α → Reader β} {finish : α → β → Prop} (h : Decides r text means)
    (hf : ∀ a rest b left, f a rest = .ok (b, left) ↔ finish a b ∧ left = rest) :
    Decides (r >>= f) text fun b ↦ ∃ a, means a ∧ finish a b := by
  intro rest hrest b left
  rw [bind_eq_ok_iff]
  constructor
  · rintro ⟨a, middle, hread, hfinish⟩
    obtain ⟨ha, rfl⟩ := (h rest hrest a middle).mp hread
    obtain ⟨hb, rfl⟩ := (hf a middle b left).mp hfinish
    exact ⟨⟨a, ha, hb⟩, rfl⟩
  · rintro ⟨⟨a, ha, hb⟩, rfl⟩
    exact ⟨a, left, (h left hrest a left).mpr ⟨ha, rfl⟩, (hf a left b left).mpr ⟨hb, rfl⟩⟩

theorem pure_eq_ok_iff {a b : α} {rest left : List Char} :
    (pure a : Reader α) rest = .ok (b, left) ↔ a = b ∧ left = rest := by
  rw [pure_apply, Except.ok.injEq, Prod.mk.injEq, @eq_comm _ rest]

/-- A check reads nothing. -/
theorem vetted_eq_ok_iff {outcome : Except Fault α} {a : α} {rest left : List Char} :
    vetted outcome rest = .ok (a, left) ↔ outcome = .ok a ∧ left = rest := by
  cases outcome with
  | ok b => rw [vetted, pure_eq_ok_iff, Except.ok.injEq]
  | error fault => simp [vetted]

theorem required_eq_ok_iff {key : String} {value : Option α} {a : α} {rest left : List Char} :
    required key value rest = .ok (a, left) ↔ value = some a ∧ left = rest := by
  cases value with
  | some b => rw [required, pure_eq_ok_iff, Option.some.injEq]
  | none => simp [required]

theorem Decides.map (h : Decides r text means) (f : α → β) :
    Decides (r >>= fun a ↦ pure (f a)) text fun b ↦ ∃ a, means a ∧ f a = b :=
  h.bind fun _ _ _ _ ↦ pure_eq_ok_iff

/-- A check behind a reader narrows what the text can mean. -/
theorem Decides.vetted (h : Decides r text means) (f : α → Except Fault β) :
    Decides (r >>= fun a ↦ Reader.vetted (f a)) text fun b ↦ ∃ a, means a ∧ f a = .ok b :=
  h.bind fun _ _ _ _ ↦ vetted_eq_ok_iff

end Reader

namespace Document

open Reader

/-- The first character of the text of a document, in which its kind shows. -/
def initial : Document → Char
  | null => 'n'
  | boolean value => if value then 't' else 'f'
  | number value => if value.negative then '-' else (Nat.toDigits 10 value.whole).headD '0'
  | string _ => '"'
  | array _ => '['
  | object _ => '\x7b'

theorem initial_number (value : Numeral) :
    (number value).initial = '-' ∨ (number value).initial.isDigit = true := by
  obtain ⟨c, others, hdigits, hc⟩ := head_toDigits_isDigit value.whole
  cases hsign : value.negative with
  | true => simp [initial, hsign]
  | false => simp [initial, hsign, hdigits, hc]

/-- No document is written as an empty text. -/
theorem exists_compact_eq (d : Document) : ∃ text, d.compact = d.initial :: text := by
  cases d with
  | null => exact ⟨_, rfl⟩
  | boolean value => cases value <;> exact ⟨_, rfl⟩
  | number value =>
    obtain ⟨c, others, hdigits, hc⟩ := head_toDigits_isDigit value.whole
    cases hsign : value.negative with
    | true => exact ⟨_, by rw [compact, Numeral.chars, initial, hsign]; rfl⟩
    | false => exact ⟨_, by rw [compact, Numeral.chars, initial, hsign, hdigits]; rfl⟩
  | string value => exact ⟨_, by rw [compact]; rfl⟩
  | array items => exact ⟨_, by rw [compact]; rfl⟩
  | object members => exact ⟨_, by rw [compact]; rfl⟩

/-- No document starts with a blank, so none is skipped before it. -/
theorem isBlank_initial (d : Document) : isBlank d.initial = false := by
  cases d with
  | boolean value => cases value <;> decide
  | number value =>
    rcases initial_number value with h | h
    · rw [h]
      decide
    · exact isBlank_of_isDigit h
  | null | string _ | array _ | object _ => rfl

theorem initial_number_ne {value : Numeral} {c : Char} (hminus : c ≠ '-') (hc : c.isDigit = false) :
    (number value).initial ≠ c := by
  rintro rfl
  rcases initial_number value with h | h
  · exact hminus h
  · rw [h] at hc
    cases hc

/-- The first character tells the sort of a document. -/
theorem initial_eq_quote_iff {d : Document} : d.initial = '"' ↔ ∃ value, d = .string value := by
  cases d with
  | boolean value => cases value <;> simp [initial]
  | number value => simp [@initial_number_ne value '"' (by decide) (by decide)]
  | null | string _ | array _ | object _ => simp [initial]

theorem initial_eq_bracket_iff {d : Document} : d.initial = '[' ↔ ∃ items, d = .array items := by
  cases d with
  | boolean value => cases value <;> simp [initial]
  | number value => simp [@initial_number_ne value '[' (by decide) (by decide)]
  | null | string _ | array _ | object _ => simp [initial]

theorem initial_eq_brace_iff {d : Document} :
    d.initial = '\x7b' ↔ ∃ members, d = .object members := by
  cases d with
  | boolean value => cases value <;> simp [initial]
  | number value => simp [@initial_number_ne value '\x7b' (by decide) (by decide)]
  | null | string _ | array _ | object _ => simp [initial]

theorem initial_eq_n_iff {d : Document} : d.initial = 'n' ↔ d = .null := by
  cases d with
  | boolean value => cases value <;> simp [initial]
  | number value => simp [@initial_number_ne value 'n' (by decide) (by decide)]
  | null | string _ | array _ | object _ => simp [initial]

end Document

namespace Reader

variable {α β σ : Type}

/-- Looking for a value finds the first character of the document, and leaves it there. -/
theorem demand_compact (d : Document) (rest : List Char) :
    demand (d.compact ++ rest) = .ok (d.initial, d.compact ++ rest) := by
  obtain ⟨text, htext⟩ := d.exists_compact_eq
  rw [htext, List.cons_append, demand_cons d.isBlank_initial]

theorem upcoming_compact (d : Document) (rest : List Char) :
    upcoming (d.compact ++ rest) = .ok (some d.initial, d.compact ++ rest) := by
  obtain ⟨text, htext⟩ := d.exists_compact_eq
  rw [htext, List.cons_append, upcoming_cons d.isBlank_initial]

/-- A reader that asks for a certain first character refuses all documents that start otherwise. -/
theorem decides_demanded {c : Char} {r : Reader α} {d : Document} {means : α → Prop}
    (hread : d.initial = c → Decides r d.compact means) (hmeans : ∀ a, means a → d.initial = c)
    (expected : String) :
    Decides (demand >>= fun next ↦ if next = c then r else wrongType expected) d.compact means := by
  by_cases hc : d.initial = c
  · intro rest hrest a left
    rw [bind_apply, demand_compact]
    simp only [if_pos hc]
    exact hread hc rest hrest a left
  · refine Decides.iff (decides_none fun rest pair ↦ ?_) fun a ↦ ?_
    · rw [bind_apply, demand_compact]
      simp only [if_neg hc]
      exact (gives_wrongType _).ne_ok _ pair
    · exact ⟨False.elim, fun ha ↦ hc (hmeans a ha)⟩

/-- Only strings are read as strings. -/
theorem decides_stringValue (d : Document) :
    Decides stringValue d.compact fun value ↦ d = .string value := by
  apply decides_demanded
  · intro hquote
    obtain ⟨value, rfl⟩ := Document.initial_eq_quote_iff.mp hquote
    have htakes : TakesBack (advance >>= fun _ ↦ string) (Document.string value).compact value := by
      intro rest
      rw [Document.compact]
      simpa [stringChars] using takesBack_string value rest
    apply htakes.decides.iff
    intro other
    rw [Document.string.injEq, eq_comm]
  · rintro value rfl
    rfl

theorem decides_nullValue (d : Document) : Decides nullValue d.compact fun _ ↦ d = .null := by
  apply decides_demanded
  · intro hnull
    obtain rfl := Document.initial_eq_n_iff.mp hnull
    apply (takesBack_word "null".toList).decides.iff
    simp
  · rintro _ rfl
    rfl

/-! ## Variants -/

variable {choices : List (String × Payload α)}

/-- A bare name stands for a choice that carries nothing. -/
theorem decides_variant_name (name : String) (budget : Nat) :
    Decides (variant choices budget) (stringChars name) fun a ↦
      choices.lookup name = some (.nothing a) := by
  intro rest _ a left
  have hstring := takesBack_string name rest
  rw [List.append_assoc, List.singleton_append] at hstring
  rw [variant, bind_apply, stringChars, List.cons_append, List.cons_append,
    upcoming_cons (by decide)]
  simp only [bind_apply, advance_apply, List.tail_cons, List.append_assoc, List.singleton_append,
    hstring, chosen]
  cases choices.lookup name with
  | none => simp
  | some payload =>
    cases payload with
    | nothing value => simp [eq_comm]
    | carried read => simp

theorem compact_object_append (members : List (String × Document)) (rest : List Char) :
    (Document.object members).compact ++ rest =
      '\x7b' :: (Document.membersFrom true members ++ '\x7d' :: rest) := by
  rw [Document.compact, Document.compactMembers_eq]
  simp

theorem membersFrom_append (first : Bool) (key : String) (value : Document)
    (members : List (String × Document)) (rest : List Char) :
    Document.membersFrom first ((key, value) :: members) ++ rest =
      (separator first ++ stringChars key ++ ':' :: value.compact) ++
        (Document.membersFrom false members ++ rest) := by
  simp [Document.membersFrom]

/-- Behind a member comes a comma or the closing brace. -/
theorem follows_membersFrom (members : List (String × Document)) (rest : List Char) :
    Follows (Document.membersFrom false members ++ '\x7d' :: rest) := by
  cases members with
  | nil => exact follows_cons (.inr (.inr rfl)) rest
  | cons member others => exact follows_cons (.inl rfl) _

/-- The end of the object that a variant is written as. -/
def closeVariant (value : α) : Reader α := do
  match ← upcoming with
  | some '\x7d' =>
    advance
    return value
  | some _ => failHere (.breach .expectedValue)
  | none => failHere (.unfinished .object)

/-- The tag is looked up before its payload is read. -/
theorem taggedVariant_string (name : String) (budget : Nat) (text : List Char) :
    taggedVariant choices (budget + 1) ('\x7b' :: stringChars name ++ ':' :: text) =
      match choices.lookup name with
      | some payload => (payload.value budget >>= closeVariant) text
      | none =>
        .error ⟨.mismatch (.unknownVariant name (choices.map (·.1))), ':' :: text, some 0⟩ := by
  have hquote := fun text ↦ upcoming_cons (show isBlank '"' = false by decide) text
  have hstring := takesBack_string name (':' :: text)
  rw [List.append_assoc, List.singleton_append] at hstring
  simp only [taggedVariant, stringChars, List.cons_append, List.append_assoc, List.nil_append,
    bind_apply, advance_apply, List.tail_cons, hquote, hstring, chosen]
  cases choices.lookup name with
  | none => rfl
  | some payload =>
    simp only [pure_apply, colon_cons]
    rfl

/-- A variant has one member and no more. -/
theorem closeVariant_eq_ok_iff {value a : α} {members : List (String × Document)}
    {rest left : List Char} :
    closeVariant value (Document.membersFrom false members ++ '\x7d' :: rest) = .ok (a, left) ↔
      members = [] ∧ value = a ∧ left = rest := by
  cases members with
  | nil =>
    rw [Document.membersFrom, List.nil_append, closeVariant, bind_apply, upcoming_cons (by decide)]
    simp [@eq_comm _ rest]
  | cons member others =>
    rw [membersFrom_append, separator, if_neg (by decide), closeVariant, bind_apply]
    simp only [List.cons_append, List.nil_append]
    rw [upcoming_cons (by decide)]
    simp

/-- A variant is an object with nothing but its payload under its name. -/
theorem decides_variant_object {means : String → Nat → Document → α → Prop}
    (h : ∀ name payload, choices.lookup name = some payload → ∀ budget d,
      Decides (payload.value budget) (Document.compact d) (means name budget d))
    (members : List (String × Document)) (budget : Nat) :
    Decides (variant choices budget) (Document.object members).compact fun a ↦
      ∃ name value payload left, members = [(name, value)] ∧ budget = left + 1 ∧
        choices.lookup name = some payload ∧ means name left value a := by
  intro rest _ a left
  rw [compact_object_append, variant, bind_apply, upcoming_cons (by decide)]
  simp only
  cases budget with
  | zero => simp [taggedVariant]
  | succ budget =>
    cases members with
    | nil =>
      have hbrace := upcoming_cons (show isBlank '\x7d' = false by decide) rest
      simp [taggedVariant, Document.membersFrom, hbrace]
    | cons member others =>
      obtain ⟨name, value⟩ := member
      have hfollows := follows_membersFrom others rest
      rw [membersFrom_append, separator, if_pos rfl, List.nil_append, List.append_assoc,
        List.cons_append, ← List.cons_append, taggedVariant_string]
      cases hchoice : choices.lookup name with
      | none =>
        simp only [reduceCtorEq, false_iff]
        rintro ⟨⟨_, _, _, _, hmembers, -, hlookup, -⟩, -⟩
        obtain ⟨rfl, rfl⟩ := Prod.mk.inj (List.cons.inj hmembers).1
        rw [hchoice] at hlookup
        cases hlookup
      | some payload =>
        have hvalue := h name payload hchoice budget value _ hfollows
        simp only [bind_eq_ok_iff, hvalue]
        constructor
        · rintro ⟨b, middle, ⟨hb, rfl⟩, hclose⟩
          obtain ⟨rfl, rfl, rfl⟩ := closeVariant_eq_ok_iff.mp hclose
          exact ⟨⟨name, value, payload, budget, rfl, rfl, hchoice, hb⟩, rfl⟩
        · rintro ⟨⟨_, _, _, _, hmembers, hbudget, -, hb⟩, rfl⟩
          obtain ⟨hmember, rfl⟩ := List.cons.inj hmembers
          obtain ⟨rfl, rfl⟩ := Prod.mk.inj hmember
          obtain rfl := Nat.add_right_cancel hbudget
          exact ⟨a, _, ⟨hb, rfl⟩, closeVariant_eq_ok_iff.mpr ⟨rfl, rfl, rfl⟩⟩

theorem decides_variant {means : String → Nat → Document → α → Prop}
    (h : ∀ name payload, choices.lookup name = some payload → ∀ budget d,
      Decides (payload.value budget) (Document.compact d) (means name budget d))
    (d : Document) (budget : Nat) :
    Decides (variant choices budget) d.compact fun a ↦
      (∃ name, d = .string name ∧ choices.lookup name = some (.nothing a)) ∨
        ∃ name value payload left, d = .object [(name, value)] ∧ budget = left + 1 ∧
          choices.lookup name = some payload ∧ means name left value a := by
  by_cases hquote : d.initial = '"'
  · obtain ⟨name, rfl⟩ := Document.initial_eq_quote_iff.mp hquote
    rw [Document.compact]
    apply (decides_variant_name name budget).iff
    simp
  · by_cases hbrace : d.initial = '\x7b'
    · obtain ⟨members, rfl⟩ := Document.initial_eq_brace_iff.mp hbrace
      apply (decides_variant_object h members budget).iff
      simp
    · refine Decides.iff (decides_none fun rest pair ↦ ?_) fun a ↦ ?_
      · rw [variant, bind_apply, upcoming_compact]
        simp
      · rw [Document.initial_eq_quote_iff] at hquote
        rw [Document.initial_eq_brace_iff] at hbrace
        constructor
        · exact False.elim
        · rintro (⟨name, rfl, -⟩ | ⟨name, value, -, -, rfl, -⟩)
          · exact hquote ⟨name, rfl⟩
          · exact hbrace ⟨_, rfl⟩

end Reader

end BLTree.Json

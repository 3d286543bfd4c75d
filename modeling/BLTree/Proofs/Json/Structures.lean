import BLTree.Proofs.Json.Leaves

/-!
# Reading lists, objects and variants back

What the readers of lists, objects and variants make of compact texts. Each loop takes one round for
each item or member and one for the closing bracket. A reader that has run out of brackets stops at
a failure that has a place already, so that no enclosing bracket changes it on its way out.
-/

namespace BLTree.Json

namespace Reader

variable {α β σ : Type}

/-- The outcome of a reader that was about to open one bracket too many. -/
def TooDeep (outcome : Except Failure α) : Prop :=
  ∃ left, outcome = .error ⟨.breach .tooDeep, left, some 1⟩

/-- The reader runs out of brackets inside of `text`. It stops at the same bracket whatever
follows. -/
def Refuses (r : Reader α) (text : List Char) : Prop :=
  ∃ left, left <:+ text ∧
    ∀ rest, r (text ++ rest) = .error ⟨.breach .tooDeep, left ++ rest, some 1⟩

theorem TooDeep.bind {r : Reader α} {text : List Char} (h : TooDeep (r text)) (f : α → Reader β) :
    TooDeep ((r >>= f) text) := by
  obtain ⟨left, hleft⟩ := h
  exact ⟨left, bind_of_error hleft f⟩

/-- A failure that has a place goes through a bracket unchanged. -/
theorem enclosed_of_error {close : Reader Unit} {inner : Nat → Reader α} {budget : Nat}
    {text : List Char} {cause : Cause} {left : List Char} {reach : Nat}
    (h : inner budget text = .error ⟨cause, left, some reach⟩) (c : Char) :
    enclosed close inner (budget + 1) (c :: text) = .error ⟨cause, left, some reach⟩ := by
  simp [enclosed, h, Except.mapError, settledBy]

/-- A bracket around one bracket too many changes nothing. -/
theorem TooDeep.enclosed {close : Reader Unit} {inner : Nat → Reader α} {budget : Nat} {c : Char}
    {text : List Char} (h : TooDeep (inner budget text)) :
    TooDeep (enclosed close inner (budget + 1) (c :: text)) := by
  obtain ⟨left, hleft⟩ := h
  exact ⟨left, enclosed_of_error hleft c⟩

namespace Refuses

variable {r : Reader α} {text : List Char}

theorem tooDeep (h : Refuses r text) (rest : List Char) : TooDeep (r (text ++ rest)) := by
  obtain ⟨left, -, hleft⟩ := h
  exact ⟨left ++ rest, hleft rest⟩

theorem bind (h : Refuses r text) (f : α → Reader β) : Refuses (r >>= f) text := by
  obtain ⟨left, hsuffix, hleft⟩ := h
  exact ⟨left, hsuffix, fun rest ↦ bind_of_error (hleft rest) f⟩

/-- More text may stand behind the bracket that is one too many. -/
theorem append (h : Refuses r text) (more : List Char) : Refuses r (text ++ more) := by
  obtain ⟨left, ⟨front, hfront⟩, hleft⟩ := h
  refine ⟨left ++ more, ⟨front, by rw [← List.append_assoc, hfront]⟩, fun rest ↦ ?_⟩
  rw [List.append_assoc, List.append_assoc]
  exact hleft (more ++ rest)

theorem enclosed {close : Reader Unit} {inner : Nat → Reader α} {budget : Nat}
    (h : Refuses (inner budget) text) (c : Char) :
    Refuses (enclosed close inner (budget + 1)) (c :: text) := by
  obtain ⟨left, hsuffix, hleft⟩ := h
  exact ⟨left, hsuffix.trans (List.suffix_cons c text), fun rest ↦
    enclosed_of_error (hleft rest) c⟩

theorem congr {r' : Reader α} (h : Refuses r text)
    (heq : ∀ rest, r' (text ++ rest) = r (text ++ rest)) : Refuses r' text := by
  obtain ⟨left, hsuffix, hleft⟩ := h
  exact ⟨left, hsuffix, fun rest ↦ (heq rest).trans (hleft rest)⟩

end Refuses

theorem refuses_enclosed_zero (close : Reader Unit) (inner : Nat → Reader α) (text : List Char) :
    Refuses (enclosed close inner 0) text :=
  ⟨text, List.suffix_rfl, fun _ ↦ rfl⟩

/-- What a bracket holds is read with one bracket less, and then the bracket is closed. -/
theorem enclosed_ok {close : Reader Unit} {inner : Nat → Reader α} {budget : Nat} {a : α}
    {text tail rest : List Char} (hinner : inner budget text = .ok (a, tail))
    (hclose : close tail = .ok ((), rest)) (c : Char) :
    enclosed close inner (budget + 1) (c :: text) = .ok (a, rest) := by
  simp [enclosed, hinner, hclose, Except.mapError]

/-- A bracket keeps the cause of a failure inside of it and sees to it that the failure has a
place. -/
theorem exists_settledBy (close : Reader Unit) (failure : Failure) :
    ∃ left reach, settledBy close failure = ⟨failure.cause, left, some reach⟩ := by
  obtain ⟨cause, rest, reach⟩ := failure
  cases reach with
  | some reach => exact ⟨rest, reach, rfl⟩
  | none =>
    cases hclose : close rest with
    | ok pair => exact ⟨pair.2, 0, by simp [settledBy, hclose]⟩
    | error stopped => exact ⟨stopped.rest, 0, by simp [settledBy, hclose]⟩

/-- Only the place of a failure can change at a bracket, never its cause. -/
theorem exists_enclosed_error {close : Reader Unit} {inner : Nat → Reader α} {budget : Nat}
    {text : List Char} {failure : Failure} (h : inner budget text = .error failure) (c : Char) :
    ∃ left reach,
      enclosed close inner (budget + 1) (c :: text) = .error ⟨failure.cause, left, some reach⟩ := by
  have hsettled : enclosed close inner (budget + 1) (c :: text) =
      .error (settledBy close failure) := by
    simp [enclosed, h, Except.mapError]
  obtain ⟨left, reach, hfailure⟩ := exists_settledBy close failure
  exact ⟨left, reach, hsettled.trans (congrArg Except.error hfailure)⟩

theorem closeList_bracket (rest : List Char) : closeList (']' :: rest) = .ok ((), rest) := by
  rw [closeList, bind_apply, upcoming_cons (by decide)]
  rfl

theorem closeObject_brace (rest : List Char) : closeObject ('\x7d' :: rest) = .ok ((), rest) := by
  rw [closeObject, bind_apply, upcoming_cons (by decide)]
  rfl

theorem colon_cons (rest : List Char) : colon (':' :: rest) = .ok ((), rest) := by
  rw [colon, bind_apply, upcoming_cons (by decide)]
  rfl

/-- A loop ends at the failure of a round. -/
theorem repeatFor_of_error {step : σ → Reader (σ ⊕ α)} {a : σ} {text : List Char}
    {failure : Failure} (h : step a text = .error failure) (rounds : Nat) :
    repeatFor step (rounds + 1) a text = .error failure :=
  bind_of_error h _

/-- The text can start a value, so it is not mistaken for the end of a list. -/
def StartsValue (text : List Char) : Prop :=
  ∃ c rest, text = c :: rest ∧ isBlank c = false ∧ c ≠ ']'

theorem StartsValue.append {text : List Char} (h : StartsValue text) (rest : List Char) :
    StartsValue (text ++ rest) := by
  obtain ⟨c, others, rfl, hc⟩ := h
  exact ⟨c, others ++ rest, rfl, hc⟩

/-- The comma before an item or a member that is not the first. -/
def separator (first : Bool) : List Char := if first then [] else [',']

/-- Behind the comma that belongs there, if any, the next item is announced and left in place. -/
theorem anotherItem_value (first : Bool) {text : List Char} (h : StartsValue text) :
    anotherItem first (separator first ++ text) = .ok (true, text) := by
  obtain ⟨c, rest, rfl, hblank, hbracket⟩ := h
  cases first with
  | true =>
    rw [anotherItem, bind_apply, separator, if_pos rfl, List.nil_append, upcoming_cons hblank]
    simp [hbracket]
  | false =>
    have hnext := upcoming_cons hblank rest
    rw [anotherItem, bind_apply, separator, if_neg (by decide), List.singleton_append,
      upcoming_cons (by decide)]
    simp [hnext]

/-- The closing bracket ends a list and stays for the reader of the bracket. -/
theorem anotherItem_close (first : Bool) (rest : List Char) :
    anotherItem first (']' :: rest) = .ok (false, ']' :: rest) := by
  rw [anotherItem, bind_apply, upcoming_cons (by decide)]
  rfl

/-- One round of `items`. -/
def itemStep (item : Reader α) (done : List α) : Reader (List α ⊕ List α) := do
  if ← anotherItem done.isEmpty then return .inl ((← item) :: done)
  else return .inr done.reverse

theorem items_eq (item : Reader α) : items item = repeatFrom [] (itemStep item) := rfl

/-- A round adds the item that it reads to those that are done. -/
theorem itemStep_value {item : Reader α} {text rest : List Char} {a : α} (h : StartsValue text)
    (hitem : item text = .ok (a, rest)) (done : List α) :
    itemStep item done (separator done.isEmpty ++ text) = .ok (.inl (a :: done), rest) := by
  rw [itemStep, bind_apply, anotherItem_value _ h]
  simp [hitem]

/-- A round whose item cannot be read fails as the item does. -/
theorem itemStep_of_error {item : Reader α} {text : List Char} {failure : Failure}
    (h : StartsValue text) (hitem : item text = .error failure) (done : List α) :
    itemStep item done (separator done.isEmpty ++ text) = .error failure := by
  rw [itemStep, bind_apply, anotherItem_value _ h]
  exact bind_of_error hitem _

theorem itemStep_close (item : Reader α) (done : List α) (rest : List Char) :
    itemStep item done (']' :: rest) = .ok (.inr done.reverse, ']' :: rest) := by
  rw [itemStep, bind_apply, anotherItem_close]
  simp

end Reader

namespace Document

theorem startsValue_chars (n : Numeral) : Reader.StartsValue n.chars := by
  obtain ⟨c, others, hdigits, hc⟩ := Reader.head_toDigits_isDigit n.whole
  unfold Numeral.chars
  rw [hdigits]
  cases n.negative with
  | true => exact ⟨'-', _, rfl, by decide, by decide⟩
  | false =>
    have hbracket : c ≠ ']' := by
      intro hc'
      subst hc'
      simp at hc
    exact ⟨c, _, rfl, Reader.isBlank_of_isDigit hc, hbracket⟩

/-- No document begins with a blank or with the end of a list. -/
theorem startsValue_compact (d : Document) : Reader.StartsValue d.compact := by
  cases d with
  | null => exact ⟨'n', _, rfl, by decide, by decide⟩
  | boolean value =>
    cases value with
    | true => exact ⟨'t', _, rfl, by decide, by decide⟩
    | false => exact ⟨'f', _, rfl, by decide, by decide⟩
  | number value =>
    rw [compact]
    exact startsValue_chars value
  | string value =>
    rw [compact]
    exact ⟨'"', _, rfl, by decide, by decide⟩
  | array items =>
    rw [compact]
    exact ⟨'[', _, rfl, by decide, by decide⟩
  | object members =>
    rw [compact]
    exact ⟨'\x7b', _, rfl, by decide, by decide⟩

/-- The items of a list from one of them on; only the first of all has no comma before it. -/
def itemsFrom (first : Bool) : List Document → List Char
  | [] => []
  | item :: items => Reader.separator first ++ item.compact ++ itemsFrom false items

/-- Commas between the items are commas before all items but the first. -/
theorem compactItems_eq (items : List Document) : compactItems items = itemsFrom true items := by
  induction items with
  | nil => simp [compactItems, itemsFrom]
  | cons item others ih =>
    cases others with
    | nil => simp [compactItems, itemsFrom, Reader.separator]
    | cons next others =>
      rw [compactItems, ih]
      · simp [itemsFrom, Reader.separator]
      · simp

/-- Each item has at least one character, so that the text bounds the rounds of the loop. -/
theorem length_le_length_itemsFrom (first : Bool) (items : List Document) :
    items.length ≤ (itemsFrom first items).length := by
  induction items generalizing first with
  | nil => simp
  | cons item others ih =>
    obtain ⟨c, rest, htext, -⟩ := item.startsValue_compact
    have hothers := ih false
    simp only [itemsFrom, htext, List.length_append, List.length_cons]
    omega

end Document

namespace Reader

variable {α : Type} {item : Reader α} {write : α → Document}

/-- Items that are taken back one by one are all taken back, in their order. -/
theorem repeatFor_itemStep {values : List α}
    (h : ∀ a ∈ values, TakesBack item (write a).compact a) {rounds : Nat}
    (hrounds : values.length < rounds) (done : List α) (rest : List Char) :
    repeatFor (itemStep item) rounds done
        (Document.itemsFrom done.isEmpty (values.map write) ++ ']' :: rest) =
      .ok (done.reverse ++ values, ']' :: rest) := by
  induction values generalizing rounds done with
  | nil =>
    obtain ⟨rounds, rfl⟩ := Nat.exists_eq_add_one.mpr hrounds
    rw [List.append_nil]
    exact repeatFor_inr (itemStep_close item done rest) rounds
  | cons a values ih =>
    obtain ⟨rounds, rfl⟩ := Nat.exists_eq_add_one.mpr (Nat.zero_lt_of_lt hrounds)
    obtain ⟨ha, hvalues⟩ := List.forall_mem_cons.mp h
    have hothers := ih hvalues (by simpa using hrounds) (a :: done)
    have hstarts := fun rest ↦ (write a).startsValue_compact.append rest
    simp only [List.map_cons, Document.itemsFrom, List.append_assoc]
    calc
      repeatFor (itemStep item) (rounds + 1) done (separator done.isEmpty ++
          ((write a).compact ++
            (Document.itemsFrom false (values.map write) ++ ']' :: rest))) =
        repeatFor (itemStep item) rounds (a :: done)
          (Document.itemsFrom false (values.map write) ++ ']' :: rest) :=
        repeatFor_inl (itemStep_value (hstarts _) (ha _) done) rounds
      _ = .ok ((a :: done).reverse ++ values, ']' :: rest) := hothers
      _ = .ok (done.reverse ++ a :: values, ']' :: rest) := by simp

/-- The first item that is refused ends the list; those before it are read. -/
theorem repeatFor_itemStep_refused {values : List α}
    (h : ∀ a ∈ values, TakesBack item (write a).compact a ∨ Refuses item (write a).compact)
    (hrefused : ∃ a ∈ values, Refuses item (write a).compact) (done : List α) :
    ∃ left, left <:+ Document.itemsFrom done.isEmpty (values.map write) ∧
      ∀ rounds, values.length < rounds → ∀ rest, repeatFor (itemStep item) rounds done
          (Document.itemsFrom done.isEmpty (values.map write) ++ rest) =
        .error ⟨.breach .tooDeep, left ++ rest, some 1⟩ := by
  induction values generalizing done with
  | nil =>
    obtain ⟨_, hmem, -⟩ := hrefused
    cases hmem
  | cons a values ih =>
    obtain ⟨ha, hvalues⟩ := List.forall_mem_cons.mp h
    have hstarts := fun rest ↦ (write a).startsValue_compact.append rest
    simp only [List.map_cons, Document.itemsFrom, List.append_assoc]
    by_cases hdeep : Refuses item (write a).compact
    · obtain ⟨left, hsuffix, hleft⟩ := hdeep.append (Document.itemsFrom false (values.map write))
      refine ⟨left, hsuffix.trans (List.suffix_append _ _), fun rounds hrounds rest ↦ ?_⟩
      obtain ⟨rounds, rfl⟩ := Nat.exists_eq_add_one.mpr (Nat.zero_lt_of_lt hrounds)
      have hread := hleft rest
      rw [List.append_assoc] at hread
      exact repeatFor_of_error (itemStep_of_error (hstarts _) hread done) rounds
    · have hlater : ∃ b ∈ values, Refuses item (write b).compact := by
        obtain ⟨b, hb, hrefused⟩ := hrefused
        rcases List.mem_cons.mp hb with rfl | hb
        · exact absurd hrefused hdeep
        · exact ⟨b, hb, hrefused⟩
      obtain ⟨left, hsuffix, hleft⟩ := ih hvalues hlater (a :: done)
      refine ⟨left, ?_, fun rounds hrounds rest ↦ ?_⟩
      · rw [← List.append_assoc]
        exact hsuffix.trans (List.suffix_append _ _)
      · obtain ⟨rounds, rfl⟩ := Nat.exists_eq_add_one.mpr (Nat.zero_lt_of_lt hrounds)
        rw [repeatFor_inl (itemStep_value (hstarts _) (ha.resolve_right hdeep _) done)]
        exact hleft rounds (by simpa using hrounds) rest

theorem length_lt_rounds (values : List α) (rest : List Char) :
    values.length < (Document.itemsFrom true (values.map write) ++ rest).length + 2 := by
  have hlength := Document.length_le_length_itemsFrom true (values.map write)
  rw [List.length_map] at hlength
  rw [List.length_append]
  omega

/-- A list is taken back if each of its items is. -/
theorem takesBack_list {values : List α} (h : ∀ a ∈ values, TakesBack item (write a).compact a)
    (budget : Nat) :
    TakesBack (enclosed closeList (fun _ ↦ items item) (budget + 1))
      (Document.array (values.map write)).compact values := by
  intro rest
  have hitems : items item (Document.itemsFrom true (values.map write) ++ ']' :: rest) =
      .ok (values, ']' :: rest) := by
    rw [items_eq, repeatFrom, bind_apply, get_apply]
    exact repeatFor_itemStep h (length_lt_rounds values _) [] rest
  rw [Document.compact, Document.compactItems_eq, List.cons_append, List.cons_append,
    List.append_assoc, List.singleton_append]
  exact enclosed_ok hitems (closeList_bracket rest) '['

/-- A list is refused for the first of its items that is refused. -/
theorem refuses_list {values : List α}
    (h : ∀ a ∈ values, TakesBack item (write a).compact a ∨ Refuses item (write a).compact)
    (hrefused : ∃ a ∈ values, Refuses item (write a).compact) (budget : Nat) :
    Refuses (enclosed closeList (fun _ ↦ items item) (budget + 1))
      (Document.array (values.map write)).compact := by
  obtain ⟨left, hsuffix, hleft⟩ := repeatFor_itemStep_refused h hrefused []
  have hitems : Refuses (items item) (Document.itemsFrom true (values.map write)) := by
    refine ⟨left, hsuffix, fun rest ↦ ?_⟩
    rw [items_eq, repeatFrom, bind_apply, get_apply]
    exact hleft _ (length_lt_rounds values rest) rest
  rw [Document.compact, Document.compactItems_eq, List.cons_append]
  exact (hitems.append [']']).enclosed '['

/-! ## Members of objects -/

variable {σ : Type}

theorem key_string (key : String) (rest : List Char) :
    anotherKey.key '"' (stringChars key ++ rest) = .ok (some key, rest) := by
  have hstring := takesBack_string key rest
  rw [List.append_assoc, List.singleton_append] at hstring
  simp [anotherKey.key, stringChars, hstring]

/-- Behind the comma that belongs there, if any, the key of the next member is read. -/
theorem anotherKey_string (first : Bool) (key : String) (rest : List Char) :
    anotherKey first (separator first ++ stringChars key ++ rest) = .ok (some key, rest) := by
  have hkey := key_string key rest
  obtain ⟨tail, hcons⟩ : ∃ tail, stringChars key ++ rest = '"' :: tail := ⟨_, rfl⟩
  rw [List.append_assoc]
  rw [hcons] at hkey ⊢
  cases first with
  | true =>
    rw [anotherKey, bind_apply, separator, if_pos rfl, List.nil_append, upcoming_cons (by decide)]
    simpa using hkey
  | false =>
    have hnext := upcoming_cons (show isBlank '"' = false by decide) tail
    rw [anotherKey, bind_apply, separator, if_neg (by decide), List.singleton_append,
      upcoming_cons (by decide)]
    simpa [hnext] using hkey

theorem anotherKey_close (first : Bool) (rest : List Char) :
    anotherKey first ('\x7d' :: rest) = .ok (none, '\x7d' :: rest) := by
  rw [anotherKey, bind_apply, upcoming_cons (by decide)]
  rfl

/-- One round of `members`. -/
def memberStep (member : String → σ → Option (Reader σ)) :
    Bool × σ → Reader ((Bool × σ) ⊕ σ) := fun (first, draft) ↦ do
  match ← anotherKey first with
  | none => return .inr draft
  | some key =>
    match member key draft with
    | some read => return .inl (false, ← read)
    | none =>
      colon
      skipValue
      return .inl (false, draft)

theorem members_eq (start : σ) (member : String → σ → Option (Reader σ)) :
    members start member = repeatFrom (true, start) (memberStep member) := rfl

variable {member : String → σ → Option (Reader σ)} {draft : σ} {read : Reader σ} {key : String}

/-- What a round does behind a key that the object knows is left to the reader of its member. -/
theorem memberStep_string (hmember : member key draft = some read) (first : Bool)
    (text : List Char) :
    memberStep member (first, draft) (separator first ++ stringChars key ++ text) =
      (read >>= fun next ↦ pure (.inl (false, next))) text := by
  simp only [memberStep]
  rw [bind_apply, anotherKey_string]
  simp only [hmember]

/-- A round puts what it reads into the draft, and no later member is the first. -/
theorem memberStep_known {text rest : List Char} {next : σ} (hmember : member key draft = some read)
    (hread : read text = .ok (next, rest)) (first : Bool) :
    memberStep member (first, draft) (separator first ++ stringChars key ++ text) =
      .ok (.inl (false, next), rest) := by
  rw [memberStep_string hmember, bind_apply, hread]
  rfl

/-- A round whose member cannot be read fails as the member does. -/
theorem memberStep_of_error {text : List Char} {failure : Failure}
    (hmember : member key draft = some read) (hread : read text = .error failure) (first : Bool) :
    memberStep member (first, draft) (separator first ++ stringChars key ++ text) =
      .error failure := by
  rw [memberStep_string hmember]
  exact bind_of_error hread _

theorem memberStep_close (first : Bool) (rest : List Char) :
    memberStep member (first, draft) ('\x7d' :: rest) = .ok (.inr draft, '\x7d' :: rest) := by
  simp only [memberStep]
  rw [bind_apply, anotherKey_close]
  rfl

/-- A member that has not been read yet is read behind its colon. -/
theorem once_none (key : String) (read : Reader α) (rest : List Char) :
    once key none read (':' :: rest) = read rest := by
  simp [once, colon_cons]

/-! ## Variants -/

/-- A table that has an entry for each key under its spelling has no others. -/
theorem lookup_spelling_iff {κ β : Type} {keys : List κ} {spelling : κ → String} {f : κ → β}
    (h : ∀ k, (keys.map fun k ↦ (spelling k, f k)).lookup (spelling k) = some (f k))
    (name : String) (b : β) :
    (keys.map fun k ↦ (spelling k, f k)).lookup name = some b ↔
      ∃ k, spelling k = name ∧ f k = b := by
  constructor
  · intro hname
    obtain ⟨front, back, hentries, -⟩ := List.lookup_eq_some_iff.mp hname
    have hmem : (name, b) ∈ keys.map fun k ↦ (spelling k, f k) := by
      rw [hentries]
      simp
    obtain ⟨k, -, hk⟩ := List.mem_map.mp hmem
    exact ⟨k, Prod.mk.inj hk⟩
  · rintro ⟨k, rfl, rfl⟩
    exact h k

variable {choices : List (String × Payload α)} {name : String}

/-- A variant without a payload may be written as its name alone. -/
theorem takesBack_variant_name {value : α} (h : choices.lookup name = some (.nothing value))
    (budget : Nat) : TakesBack (variant choices budget) (stringChars name) value := by
  intro rest
  have hstring := takesBack_string name rest
  rw [List.append_assoc, List.singleton_append] at hstring
  rw [variant, bind_apply, stringChars, List.cons_append, List.cons_append,
    upcoming_cons (by decide)]
  simp [hstring, chosen, h]

/-- A variant with a payload is written as an object with one member, for which a bracket is spent.
-/
theorem takesBack_variant_tagged {read : Nat → Reader α} {budget : Nat} {text : List Char}
    {value : α} (h : choices.lookup name = some (.carried read))
    (hread : TakesBack (read budget) text value) :
    TakesBack (variant choices (budget + 1))
      ('\x7b' :: stringChars name ++ ':' :: text ++ ['\x7d']) value := by
  intro rest
  have hstring := takesBack_string name (':' :: (text ++ '\x7d' :: rest))
  rw [List.append_assoc, List.singleton_append] at hstring
  have hvalue := hread ('\x7d' :: rest)
  have hquote := fun tail ↦ upcoming_cons (show isBlank '"' = false by decide) tail
  have hbrace := upcoming_cons (show isBlank '\x7d' = false by decide) rest
  simp only [stringChars, List.cons_append, List.append_assoc, List.nil_append]
  rw [variant, bind_apply, upcoming_cons (by decide)]
  simp [taggedVariant, hquote, hstring, chosen, h, colon_cons, Payload.value, hvalue, hbrace]

/-- A tagged variant needs a bracket of its own. -/
theorem refuses_variant_zero (text : List Char) :
    Refuses (variant choices 0) ('\x7b' :: text) := by
  refine ⟨'\x7b' :: text, List.suffix_rfl, fun rest ↦ ?_⟩
  rw [variant, bind_apply, List.cons_append, upcoming_cons (by decide)]
  rfl

end Reader

end BLTree.Json

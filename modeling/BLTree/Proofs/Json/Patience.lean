import BLTree.Proofs.Json.Acceptance
import BLTree.Proofs.Json.Budgets

/-!
# Readers that wait for the rest

A reader that is given only the front of a text cannot know what was cut off. It is patient if it
then finds the text unfinished, or else comes to the value that the whole text gives and has read no
further than to the cut. The rules follow the building blocks of readers; every reader of names,
conditions and labels is patient at every text. A reader that passes over unknown members is not: a
number may end anywhere, and a minus sign at the end of a text counts as a broken number.
-/

namespace BLTree

namespace Json.Reader

variable {α β σ : Type}

/-! ## Patience -/

/-- The text ended too early, at a place that is known. -/
def Unfinished (outcome : Except Failure (α × List Char)) : Prop :=
  ∃ construct left reach, outcome = .error ⟨.unfinished construct, left, some reach⟩

/-- If the whole text can be read, then reading its front breaks off or gives the same value, with
`more` still to come. -/
def Waits (more : List Char) (front whole : Except Failure (α × List Char)) : Prop :=
  ∀ a rest, whole = .ok (a, rest) →
    Unfinished front ∨ ∃ left, rest = left ++ more ∧ front = .ok (a, left)

/-- The reader waits wherever the text is cut. -/
def PatientAt (r : Reader α) (text : List Char) : Prop :=
  ∀ front more, front ++ more = text → Waits more (r front) (r text)

def Patient (r : Reader α) : Prop := ∀ text, PatientAt r text

/-- If the first reader could go on, the second has to be patient with what is left of the front. -/
theorem Waits.bind {r : Reader α} {f g : α → Reader β} {front text more : List Char}
    (h : Waits more (r front) (r text))
    (hf : ∀ a rest left, r text = .ok (a, rest) → left ++ more = rest →
      Waits more (f a left) (g a rest)) :
    Waits more ((r >>= f) front) ((r >>= g) text) := by
  intro b rest hwhole
  obtain ⟨a, middle, hread, hlater⟩ := bind_eq_ok_iff.mp hwhole
  rcases h a middle hread with ⟨construct, left, reach, hfront⟩ | ⟨left, hleft, hfront⟩
  · refine .inl ⟨construct, left, reach, ?_⟩
    rw [bind_apply, hfront]
  · rw [bind_apply, hfront]
    exact hf a middle left hread hleft.symm b rest hlater

theorem PatientAt.bind {r : Reader α} {f : α → Reader β} {text : List Char} (h : PatientAt r text)
    (hf : ∀ a rest, r text = .ok (a, rest) → PatientAt (f a) rest) : PatientAt (r >>= f) text := by
  intro front more hcut
  apply (h front more hcut).bind
  intro a rest left hread hleft
  exact hf a rest hread left more hleft

/-- Where the first of two readers is known to succeed, only the second matters. -/
theorem PatientAt.bind_ok {r : Reader α} {f : α → Reader β} {text rest : List Char} {a : α}
    (h : PatientAt r text) (hread : r text = .ok (a, rest)) (hf : PatientAt (f a) rest) :
    PatientAt (r >>= f) text := by
  apply h.bind
  intro b left hagain
  rw [hread] at hagain
  cases hagain
  exact hf

/-- The continuation has to be patient only with values that can be given. -/
theorem Patient.bind_of_gives {r : Reader α} {f : α → Reader β} {post : α → Prop} (h : Patient r)
    (hpost : Gives r post) (hf : ∀ a, post a → Patient (f a)) : Patient (r >>= f) := by
  intro text
  apply (h text).bind
  intro a rest hread
  exact hf a (hpost text a rest hread) rest

theorem Patient.bind {r : Reader α} {f : α → Reader β} (h : Patient r)
    (hf : ∀ a, Patient (f a)) : Patient (r >>= f) :=
  h.bind_of_gives (gives_any r) fun a _ ↦ hf a

theorem patient_pure (a : α) : Patient (pure a : Reader α) := by
  intro text front more hcut b rest hread
  obtain ⟨rfl, rfl⟩ := pure_eq_ok_iff.mp hread
  exact .inr ⟨front, hcut.symm, rfl⟩

theorem PatientAt.map {r : Reader α} {text : List Char} (h : PatientAt r text) (f : α → β) :
    PatientAt (r >>= fun a ↦ pure (f a)) text :=
  h.bind fun a rest _ ↦ patient_pure (f a) rest

theorem Patient.map {r : Reader α} (h : Patient r) (f : α → β) :
    Patient (r >>= fun a ↦ pure (f a)) := fun text ↦ (h text).map f

/-- A reader that never gives a value has nothing to wait for. -/
theorem Gives.patient {r : Reader α} (h : Gives r fun _ ↦ False) : Patient r :=
  fun text _ _ _ a rest hread ↦ (h text a rest hread).elim

theorem patient_vetted (outcome : Except Fault α) : Patient (vetted outcome) := by
  cases outcome with
  | ok a => exact patient_pure a
  | error fault => exact (gives_mismatch _).patient

theorem patient_required (key : String) (value : Option α) : Patient (required key value) := by
  cases value with
  | some a => exact patient_pure a
  | none => exact (gives_mismatch _).patient

/-! ## Looking ahead

A character that is looked at stands before the cut, or else the text ends there. -/

theorem PatientAt.cons {r : Reader α} {c : Char} {text : List Char} (h : PatientAt r (c :: text)) :
    PatientAt (fun rest ↦ r (c :: rest)) text := by
  intro front more hcut
  exact h (c :: front) more (by rw [← hcut, List.cons_append])

/-- The reader waits wherever the text is cut behind its first character. -/
def PatientPast (c : Char) (r : Reader α) : Prop := Patient fun rest ↦ r (c :: rest)

theorem Patient.past {r : Reader α} (h : Patient r) (c : Char) : PatientPast c r :=
  fun text ↦ (h (c :: text)).cons

/-- A front may end in blanks, so that nothing is seen; with a character that is seen, the
continuation decides. -/
theorem patientAt_upcoming {k : Option Char → Reader α} {text : List Char}
    (hnone : Unfinished (k none []))
    (hsome : ∀ c rest, text.dropWhile isBlank = c :: rest →
      PatientAt (fun rest ↦ k (some c) (c :: rest)) rest) :
    PatientAt (upcoming >>= k) text := by
  have hrun : ∀ text, (upcoming >>= k) text =
      k (text.dropWhile isBlank).head? (text.dropWhile isBlank) := fun _ ↦ rfl
  intro front more hcut
  rw [hrun, hrun, ← hcut, List.dropWhile_append]
  cases hfront : front.dropWhile isBlank with
  | nil => exact fun _ _ _ ↦ .inl hnone
  | cons c left =>
    have htext : text.dropWhile isBlank = c :: (left ++ more) := by
      rw [← hcut, List.dropWhile_append, hfront]
      rfl
    exact hsome c (left ++ more) htext left more rfl

theorem patientAt_upcoming_cons {k : Option Char → Reader α} {c : Char} {text : List Char}
    (hc : isBlank c = false) (hnone : Unfinished (k none []))
    (hsome : PatientAt (fun rest ↦ k (some c) (c :: rest)) text) :
    PatientAt (upcoming >>= k) (c :: text) := by
  apply patientAt_upcoming hnone
  intro d rest hdrop
  rw [List.dropWhile_cons_of_neg (by simp [hc])] at hdrop
  obtain ⟨rfl, rfl⟩ := List.cons.inj hdrop
  exact hsome

/-- The same for all texts. -/
theorem patient_upcoming {k : Option Char → Reader α} (hnone : Unfinished (k none []))
    (hsome : ∀ c, PatientPast c (k (some c))) : Patient (upcoming >>= k) :=
  fun _ ↦ patientAt_upcoming hnone fun c rest _ ↦ hsome c rest

theorem patient_peek {k : Option Char → Reader α} (hnone : Unfinished (k none []))
    (hsome : ∀ c, PatientPast c (k (some c))) : Patient (peek >>= k) := by
  intro text front more hcut
  cases front with
  | nil => exact fun _ _ _ ↦ .inl hnone
  | cons c left =>
    rw [← hcut]
    exact hsome c (left ++ more) left more rfl

/-- A value that is missing is the end of the text that is looked at. -/
theorem demand_bind (k : Char → Reader α) :
    demand >>= k = upcoming >>= fun
      | some c => k c
      | none => failNext (.unfinished .value) := by
  rw [demand, bind_assoc]
  congr 1
  funext next
  cases next <;> rfl

theorem patientAt_demand_cons {k : Char → Reader α} {c : Char} {text : List Char}
    (hc : isBlank c = false) (h : PatientAt (fun rest ↦ k c (c :: rest)) text) :
    PatientAt (demand >>= k) (c :: text) := by
  rw [demand_bind]
  exact patientAt_upcoming_cons hc ⟨_, _, _, rfl⟩ h

theorem patient_demand {k : Char → Reader α} (h : ∀ c, PatientPast c (k c)) :
    Patient (demand >>= k) := by
  rw [demand_bind]
  exact patient_upcoming ⟨_, _, _, rfl⟩ h

theorem patientPast_advance (c : Char) : PatientPast c advance := patient_pure ()

theorem Patient.advance {r : Reader α} (h : Patient r) (c : Char) :
    PatientPast c (Reader.advance >>= fun _ ↦ r) := h

/-- A front may end inside of a word. -/
theorem patient_word (characters : List Char) : Patient (word characters) := by
  induction characters with
  | nil => exact patient_pure ()
  | cons c others ih =>
    apply patient_peek ⟨_, _, _, rfl⟩
    intro d
    dsimp only
    split
    · exact ih.advance d
    · exact (gives_failNext _).patient.past d

/-- The front of a text is given fewer rounds than the whole; but a loop that runs out of rounds
counts as unfinished. -/
theorem waits_repeatFor {step : σ → Reader (σ ⊕ α)} (inv : σ → List Char → Prop)
    (hpatient : ∀ s text, inv s text → PatientAt (step s) text)
    (hstep : ∀ s text next rest, inv s text → step s text = .ok (.inl next, rest) → inv next rest)
    {fewer rounds : Nat} (hrounds : fewer ≤ rounds) {s : σ} {text front more : List Char}
    (hs : inv s text) (hcut : front ++ more = text) :
    Waits more (repeatFor step fewer s front) (repeatFor step rounds s text) := by
  induction fewer generalizing rounds s text front with
  | zero => exact fun _ _ _ ↦ .inl ⟨_, _, _, rfl⟩
  | succ fewer ih =>
    obtain ⟨rounds, rfl⟩ := Nat.exists_eq_add_one.mpr (Nat.zero_lt_of_lt hrounds)
    apply (hpatient s text hs front more hcut).bind
    intro out rest left hread hleft
    cases out with
    | inl next =>
      exact ih (Nat.le_of_succ_le_succ hrounds) (hstep s text next rest hs hread) hleft
    | inr result => exact patient_pure result rest left more hleft

/-- A loop is patient if each round is, at the text to which the rounds before it lead. -/
theorem patientAt_repeatFrom {step : σ → Reader (σ ⊕ α)} (inv : σ → List Char → Prop)
    (hpatient : ∀ s text, inv s text → PatientAt (step s) text)
    (hstep : ∀ s text next rest, inv s text → step s text = .ok (.inl next, rest) → inv next rest)
    {start : σ} {text : List Char} (hstart : inv start text) :
    PatientAt (repeatFrom start step) text := by
  intro front more hcut
  have hlength : front.length + 2 ≤ text.length + 2 := by
    rw [← hcut, List.length_append]
    omega
  exact waits_repeatFor inv hpatient hstep hlength hstart hcut

/-- A loop is patient if all its rounds are. -/
theorem patient_repeatFrom {step : σ → Reader (σ ⊕ α)} (h : ∀ s, Patient (step s)) (start : σ) :
    Patient (repeatFrom start step) := fun _ ↦
  patientAt_repeatFrom (fun _ _ ↦ True) (fun s text _ ↦ h s text) (fun _ _ _ _ _ _ ↦ trivial)
    trivial

/-- Hexadecimal digits are ASCII. -/
theorem utf8Size_of_hexDigit? {c : Char} {d : Nat} (h : hexDigit? c = some d) :
    c.utf8Size = 1 := by
  rw [Char.utf8Size_eq_one_iff]
  unfold hexDigit? at h
  split at h
  · rename_i hdigit
    have hnine : 48 ≤ c.val ∧ c.val ≤ 57 := by simpa [Char.isDigit] using hdigit
    exact UInt32.le_trans hnine.2 (by decide)
  · split at h
    · rename_i hletter
      exact UInt32.le_trans hletter.2 (by decide)
    · split at h
      · rename_i hletter
        exact UInt32.le_trans hletter.2 (by decide)
      · cases h

theorem byteLength_of_mapM_hexDigit? {text : List Char} {digits : List Nat}
    (h : text.mapM hexDigit? = some digits) : byteLength text = text.length := by
  induction text generalizing digits with
  | nil => rfl
  | cons c others ih =>
    rw [List.mapM_cons] at h
    obtain ⟨d, hd, hothers⟩ := Option.bind_eq_some_iff.mp h
    obtain ⟨more, hmore, -⟩ := Option.bind_eq_some_iff.mp hothers
    rw [byteLength, utf8Size_of_hexDigit? hd, ih hmore, List.length_cons, Nat.add_comm]

/-- Where four digits are read there are four digits. -/
theorem exists_mapM_of_hexQuad {text rest : List Char} {n : Nat}
    (h : hexQuad text = .ok (n, rest)) :
    ∃ digits, (text.take 4).mapM hexDigit? = some digits := by
  unfold hexQuad at h
  split at h
  · cases h
  · split at h
    · rename_i digits hdigits
      exact ⟨digits, hdigits⟩
    · cases h

/-- A hexadecimal digit takes one byte, so a front with four bytes has all four digits. -/
theorem patient_hexQuad : Patient hexQuad := by
  intro text front more hcut n rest hread
  by_cases hshort : byteLength (front.take 4) < 4
  · left
    rw [hexQuad, if_pos hshort]
    exact ⟨_, _, _, rfl⟩
  · right
    obtain ⟨digits, hdigits⟩ := exists_mapM_of_hexQuad hread
    rw [← hcut, List.take_append, List.mapM_append] at hdigits
    obtain ⟨first, hfirst, -⟩ := Option.bind_eq_some_iff.mp hdigits
    have hlength : 4 ≤ front.length := by
      rw [byteLength_of_mapM_hexDigit? hfirst, List.length_take] at hshort
      omega
    have htake : text.take 4 = front.take 4 := by
      rw [← hcut, List.take_append_of_le_length hlength]
    have hdrop : text.drop 4 = front.drop 4 ++ more := by
      rw [← hcut, List.drop_append_of_le_length hlength]
    simp only [hexQuad, htake, hdrop, if_neg hshort, hfirst, Except.ok.injEq,
      Prod.mk.injEq] at hread ⊢
    obtain ⟨rfl, rfl⟩ := hread
    exact ⟨front.drop 4, rfl, rfl, rfl⟩

theorem patient_pairMark (c : Char) : Patient (pairMark c) := by
  apply patient_peek ⟨_, _, _, rfl⟩
  intro d
  dsimp only
  split
  · exact patientPast_advance d
  · exact (gives_failNext _).patient.past d

/-- The front may end between the halves of a pair. -/
theorem patient_numberedChar : Patient numberedChar := by
  apply patient_hexQuad.bind
  intro first
  split
  · exact (gives_failHere _).patient
  · split
    · apply (patient_pairMark '\\').bind
      intro _
      apply (patient_pairMark 'u').bind
      intro _
      apply patient_hexQuad.bind
      intro second
      split
      · exact patient_pure _
      · exact (gives_failHere _).patient
    · exact patient_pure _

theorem patient_escape : Patient escape := by
  apply patient_peek ⟨_, _, _, rfl⟩
  intro c
  split
  · rename_i h
    cases h
  · rename_i h
    cases h
    exact patient_numberedChar.advance 'u'
  · rename_i h
    cases h
    split
    · exact (patient_pure _).advance c
    · exact (gives_failNext _).patient.past c

/-- The front may end before the closing quote. -/
theorem patient_stringStep (done : List Char) : Patient (stringStep done) := by
  apply patient_peek ⟨_, _, _, rfl⟩
  intro c
  split
  · rename_i h
    cases h
  · rename_i h
    cases h
    exact (patient_pure _).advance '"'
  · rename_i h
    cases h
    exact (patient_escape.map _).advance '\\'
  · rename_i h
    cases h
    split
    · exact (gives_failNext _).patient.past c
    · exact (patient_pure _).advance c

theorem patient_string : Patient string := patient_repeatFrom patient_stringStep []

theorem patient_stringValue : Patient stringValue := by
  apply patient_demand
  intro c
  split
  · exact patient_string.advance c
  · exact (gives_wrongType _).patient.past c

theorem patient_colon : Patient colon := by
  apply patient_upcoming ⟨_, _, _, rfl⟩
  intro c
  split
  · exact patientPast_advance c
  · exact (gives_failNext _).patient.past c
  · exact (gives_failNext _).patient.past c

/-- A missing bracket is an unfinished list. -/
theorem patient_closeList : Patient closeList := by
  apply patient_upcoming ⟨_, _, _, rfl⟩
  intro c
  split
  · exact patientPast_advance c
  · refine Gives.patient ?_ |>.past c
    exact (gives_any advance).bind fun _ _ ↦ (gives_any upcoming).bind fun _ _ ↦ gives_failNext _
  · exact (gives_failNext _).patient.past c
  · exact (gives_failNext _).patient.past c

theorem patient_closeObject : Patient closeObject := by
  apply patient_upcoming ⟨_, _, _, rfl⟩
  intro c
  split
  · exact patientPast_advance c
  · exact (gives_failNext _).patient.past c
  · exact (gives_failNext _).patient.past c
  · exact (gives_failNext _).patient.past c

/-- A comma at the end of the front waits for an item. -/
theorem patient_anotherItem (first : Bool) : Patient (anotherItem first) := by
  apply patient_upcoming ⟨_, _, _, rfl⟩
  intro c
  dsimp only
  split
  · exact (patient_pure false).past c
  split
  · exact (patient_pure true).past c
  split
  · refine Patient.advance ?_ c
    apply patient_upcoming ⟨_, _, _, rfl⟩
    intro d
    split
    · exact (gives_failNext _).patient.past d
    · exact (patient_pure true).past d
    · exact (gives_failNext _).patient.past d
  · exact (gives_failNext _).patient.past c

theorem patientPast_key (c : Char) : PatientPast c (anotherKey.key c) := by
  unfold anotherKey.key
  split
  · exact (patient_string.map _).advance c
  · exact (gives_failNext _).patient.past c

/-- A comma at the end of the front waits for a key. -/
theorem patient_anotherKey (first : Bool) : Patient (anotherKey first) := by
  apply patient_upcoming ⟨_, _, _, rfl⟩
  intro c
  dsimp only
  split
  · exact (patient_pure none).past c
  split
  · exact patientPast_key c
  split
  · refine Patient.advance ?_ c
    apply patient_upcoming ⟨_, _, _, rfl⟩
    intro d
    split
    · exact (gives_failNext _).patient.past d
    · rename_i h
      cases h
      exact patientPast_key d
    · exact (gives_failNext _).patient.past d
  · exact (gives_failNext _).patient.past c

/-- What breaks off has its place already, so the enclosing bracket leaves it as it is. -/
theorem PatientAt.settled {r : Reader α} {text : List Char} (h : PatientAt r text)
    (close : Reader Unit) :
    PatientAt (fun rest ↦ (r rest).mapError (settledBy close)) text := by
  intro front more hcut a rest hread
  rcases h front more hcut a rest (mapError_eq_ok_iff.mp hread) with
    ⟨construct, left, reach, hfront⟩ | ⟨left, hrest, hfront⟩
  · refine .inl ⟨construct, left, reach, ?_⟩
    change (r front).mapError _ = _
    rw [hfront]
    rfl
  · refine .inr ⟨left, hrest, ?_⟩
    change (r front).mapError _ = _
    rw [hfront]
    rfl

/-- What is unfinished inside of a bracket is unfinished outside. -/
theorem patientAt_enclosed {close : Reader Unit} {inner : Nat → Reader α} {text : List Char}
    (hclose : Patient close) (hinner : ∀ budget, PatientAt (inner budget) text) (budget : Nat)
    (c : Char) : PatientAt (fun rest ↦ enclosed close inner budget (c :: rest)) text := by
  cases budget with
  | zero => exact (gives_failNext _).patient.past c text
  | succ budget =>
    change PatientAt ((fun rest ↦ (inner budget rest).mapError (settledBy close)) >>=
      fun a ↦ close >>= fun _ ↦ pure a) text
    apply ((hinner budget).settled close).bind
    intro a rest _
    exact hclose.map _ rest

theorem patientAt_once {key : String} {earlier : Option α} {read : Reader α} {text : List Char}
    (h : PatientAt read text) : PatientAt (once key earlier read) (':' :: text) := by
  unfold once
  split
  · have htwice : Gives (mismatch (.fieldTwice key) : Reader PUnit) fun _ ↦ False :=
      gives_mismatch _
    exact (htwice.bind fun _ hfalse ↦ hfalse.elim).patient _
  · exact (patient_colon _).bind_ok (colon_cons text) h

variable {choices : List (String × Payload α)}

theorem patient_chosen (name : String) : Patient (chosen choices name) := by
  unfold chosen
  split
  · exact patient_pure _
  · exact (gives_failHere _).patient

/-- The front may end in the tag, before its payload, in it or behind it. -/
theorem patientPast_taggedVariant
    (h : ∀ name payload, choices.lookup name = some payload →
      ∀ budget, Patient (payload.value budget)) (budget : Nat) (c : Char) :
    PatientPast c (taggedVariant choices budget) := by
  cases budget with
  | zero => exact (gives_failNext _).patient.past c
  | succ budget =>
    refine Patient.advance ?_ c
    apply patient_upcoming ⟨_, _, _, rfl⟩
    intro d
    split
    · refine Patient.advance ?_ d
      apply patient_string.bind
      intro name
      apply (patient_chosen name).bind_of_gives (gives_chosen name)
      intro payload hpayload
      apply patient_colon.bind
      intro _
      apply (h name payload hpayload budget).bind
      intro value
      apply patient_upcoming ⟨_, _, _, rfl⟩
      intro e
      split
      · exact (patient_pure value).advance e
      · exact (gives_failHere _).patient.past e
      · exact (gives_failHere _).patient.past e
    · exact (gives_failNext _).patient.past d
    · exact (gives_failNext _).patient.past d
    · exact (gives_failNext _).patient.past d

/-- Labels and conditions are read by variants, so this is where their patience comes from. -/
theorem patient_variant
    (h : ∀ name payload, choices.lookup name = some payload →
      ∀ budget, Patient (payload.value budget)) (budget : Nat) :
    Patient (variant choices budget) := by
  apply patient_upcoming ⟨_, _, _, rfl⟩
  intro c
  split
  · exact patientPast_taggedVariant h budget c
  · refine Patient.advance ?_ c
    apply patient_string.bind
    intro name
    apply (patient_chosen name).bind
    intro payload
    cases payload with
    | nothing value => exact patient_pure value
    | carried read => exact (gives_mismatch _).patient
  · exact (gives_failNext _).patient.past c
  · exact (gives_failNext _).patient.past c

theorem patient_nullValue : Patient nullValue := by
  apply patient_demand
  intro c
  split
  · exact (patient_word _).past c
  · exact (gives_wrongType _).patient.past c

end Json.Reader

open Json Json.Reader

theorem Identifier.patient_reader : Patient Identifier.reader :=
  patient_stringValue.bind fun _ ↦ patient_vetted _

theorem Condition.patient_reader (budget : Nat) : Patient (Condition.reader budget) := by
  refine patient_variant ?_ budget
  intro name payload hname budget
  obtain ⟨c, -, rfl⟩ := (lookup_spelling_iff lookup_spelling name payload).mp hname
  exact patient_nullValue.map _

theorem Label.patient_reader (budget : Nat) : Patient (Label.reader budget) := by
  refine patient_variant ?_ budget
  intro name payload hname budget
  obtain ⟨k, -, rfl⟩ := (lookup_spelling_iff lookup_payload name payload).mp hname
  cases k with
  | block => exact patient_nullValue.map _
  | ifThen | ifElse | whileDo =>
    exact (Condition.patient_reader budget).map _
  | call => exact Identifier.patient_reader.map _

end BLTree

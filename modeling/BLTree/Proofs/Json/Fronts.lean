import BLTree.Proofs.Json.Patience

/-!
# Fronts of texts

A reader that gives a value has read a front of its text. Of what stands behind that front it has
seen one character at most, and often not even that: a word, a string and a bracket end by
themselves, whereas a number ends at the first character that does not continue it. This module
says what that means and how it passes through the ways in which readers are put together: one
after another, with a look at the next character, and in loops.
-/

namespace BLTree

namespace Json.Reader

variable {α β σ : Type}

/-- What a reader sees of the text behind the front that it reads. -/
inductive Outlook where
  | nothing
  | next

/-- Two texts that a reader cannot tell apart when it comes to them. -/
def Outlook.Same : Outlook → List Char → List Char → Prop
  | nothing, _, _ => True
  | next, text, other => text.head? = other.head?

variable {outlook : Outlook}

theorem Outlook.Same.append {rest more : List Char} (h : outlook.Same rest more)
    (front : List Char) : outlook.Same (front ++ rest) (front ++ more) := by
  cases outlook with
  | nothing => exact trivial
  | next =>
    have hhead : rest.head? = more.head? := h
    change (front ++ rest).head? = (front ++ more).head?
    rw [List.head?_append, List.head?_append, hhead]

/-- Behind a text that is not empty all that is looked at is the same. -/
theorem Outlook.same_append {front : List Char} (h : front ≠ []) (rest more : List Char) :
    outlook.Same (front ++ rest) (front ++ more) := by
  cases outlook with
  | nothing => exact trivial
  | next =>
    obtain ⟨c, others, rfl⟩ := List.exists_cons_of_ne_nil h
    rfl

/-- Whatever the reader gives, it gives it for a front of the text, and gives the same for every
text with that front in which it sees the same behind it. -/
def Confined (outlook : Outlook) (r : Reader α) : Prop :=
  ∀ text a rest, r text = .ok (a, rest) → ∃ front, text = front ++ rest ∧
    ∀ more, outlook.Same rest more → r (front ++ more) = .ok (a, more)

/-- The reader has read something whenever it gives a value that is `good`. -/
def Advances (r : Reader α) (good : α → Prop) : Prop :=
  ∀ text a rest, r text = .ok (a, rest) → good a → rest.length < text.length

/-- The same with a front that has something in it. -/
def Takes (outlook : Outlook) (r : Reader α) : Prop :=
  ∀ text a rest, r text = .ok (a, rest) → ∃ front, front ≠ [] ∧ text = front ++ rest ∧
    ∀ more, outlook.Same rest more → r (front ++ more) = .ok (a, more)

/-- A reader that takes something is confined to it. -/
theorem Takes.confined {r : Reader α} (h : Takes outlook r) : Confined outlook r := by
  intro text a rest hrun
  obtain ⟨front, -, htext, hmore⟩ := h text a rest hrun
  exact ⟨front, htext, hmore⟩

theorem Takes.advances {r : Reader α} (h : Takes outlook r) {good : α → Prop} :
    Advances r good := by
  intro text a rest hrun _
  obtain ⟨front, hne, rfl, -⟩ := h text a rest hrun
  rw [List.length_append]
  exact Nat.lt_add_of_pos_left (List.length_pos_of_ne_nil hne)

/-- A confined reader that advances on success takes something. -/
theorem Confined.takes {r : Reader α} (h : Confined outlook r)
    (hread : Advances r fun _ ↦ True) : Takes outlook r := by
  intro text a rest hrun
  obtain ⟨front, rfl, hmore⟩ := h text a rest hrun
  refine ⟨front, ?_, rfl, hmore⟩
  rintro rfl
  exact absurd (hread _ a rest hrun trivial) (Nat.lt_irrefl _)

/-- No reader adds to the text. -/
theorem Confined.length_le {r : Reader α} (h : Confined outlook r) {text rest : List Char} {a : α}
    (hrun : r text = .ok (a, rest)) : rest.length ≤ text.length := by
  obtain ⟨front, rfl, -⟩ := h text a rest hrun
  rw [List.length_append]
  exact Nat.le_add_left _ _

/-- A reader that sees nothing of what follows may well be allowed to see it. -/
theorem Confined.weaken {r : Reader α} (h : Confined .nothing r) (outlook : Outlook) :
    Confined outlook r := by
  intro text a rest hrun
  obtain ⟨front, htext, hmore⟩ := h text a rest hrun
  exact ⟨front, htext, fun more _ ↦ hmore more trivial⟩

theorem confined_pure (a : α) : Confined outlook (pure a : Reader α) := by
  intro text b rest hrun
  obtain ⟨rfl, rfl⟩ := pure_eq_ok_iff.mp hrun
  exact ⟨[], rfl, fun more _ ↦ rfl⟩

/-- A reader that never succeeds takes what is asked of it. -/
theorem Gives.takes {r : Reader α} (h : Gives r fun _ ↦ False) : Takes outlook r :=
  fun text a rest hrun ↦ (h text a rest hrun).elim

theorem Gives.confined {r : Reader α} (h : Gives r fun _ ↦ False) : Confined outlook r :=
  h.takes.confined

theorem Gives.advances {r : Reader α} (h : Gives r fun _ ↦ False) {good : α → Prop} :
    Advances r good := fun text a rest hrun _ ↦ (h text a rest hrun).elim

theorem confined_vetted (outcome : Except Fault α) : Confined outlook (vetted outcome) := by
  cases outcome with
  | ok a => exact confined_pure a
  | error fault => exact (gives_mismatch _).confined

theorem confined_required (key : String) (value : Option α) :
    Confined outlook (required key value) := by
  cases value with
  | some a => exact confined_pure a
  | none => exact (gives_mismatch _).confined

/-- The continuation has to be confined only on values that can be given. -/
theorem Confined.bind_of_gives {r : Reader α} {f : α → Reader β} {post : α → Prop}
    (h : Confined outlook r) (hpost : Gives r post) (hf : ∀ a, post a → Confined outlook (f a)) :
    Confined outlook (r >>= f) := by
  intro text b rest hrun
  obtain ⟨a, middle, hread, hlater⟩ := bind_eq_ok_iff.mp hrun
  obtain ⟨front, rfl, hfront⟩ := h text a middle hread
  obtain ⟨back, rfl, hback⟩ := hf a (hpost _ a middle hread) middle b rest hlater
  refine ⟨front ++ back, by rw [List.append_assoc], ?_⟩
  intro more hmore
  rw [List.append_assoc]
  exact bind_eq_ok_iff.mpr ⟨a, back ++ more, hfront _ (hmore.append back), hback more hmore⟩

theorem Confined.bind {r : Reader α} {f : α → Reader β} (h : Confined outlook r)
    (hf : ∀ a, Confined outlook (f a)) : Confined outlook (r >>= f) :=
  h.bind_of_gives (gives_any r) fun a _ ↦ hf a

theorem Confined.map {r : Reader α} (h : Confined outlook r) (f : α → β) :
    Confined outlook (r >>= fun a ↦ pure (f a)) := h.bind fun a ↦ confined_pure (f a)

theorem advances_pure {a : α} {good : α → Prop} (h : ¬ good a) :
    Advances (pure a : Reader α) good := by
  intro text b rest hrun hb
  obtain ⟨rfl, -⟩ := pure_eq_ok_iff.mp hrun
  exact absurd hb h

/-- What is read later can only leave less of the text. -/
theorem Advances.bind {r : Reader α} {f : α → Reader β} {good : α → Prop} {post : β → Prop}
    (h : Advances r good) (hf : ∀ a, good a → Confined outlook (f a))
    (hbad : ∀ a, ¬ good a → Gives (f a) fun b ↦ ¬ post b) : Advances (r >>= f) post := by
  intro text b rest hrun hb
  obtain ⟨a, middle, hread, hlater⟩ := bind_eq_ok_iff.mp hrun
  by_cases ha : good a
  · have hfirst := h text a middle hread ha
    have hrest := (hf a ha).length_le hlater
    omega
  · exact absurd hb (hbad a ha middle b rest hlater)

/-- It is enough if the second of two readers advances. -/
theorem Confined.bind_advances {r : Reader α} {f : α → Reader β} {post : β → Prop}
    (h : Confined outlook r) (hf : ∀ a, Advances (f a) post) : Advances (r >>= f) post := by
  intro text b rest hrun hb
  obtain ⟨a, middle, hread, hlater⟩ := bind_eq_ok_iff.mp hrun
  have hfirst := h.length_le hread
  have hrest := hf a middle b rest hlater hb
  omega

/-- It is enough if the first of two readers takes something. -/
theorem Takes.bind {r : Reader α} {f : α → Reader β} (h : Takes outlook r)
    (hf : ∀ a, Confined outlook (f a)) : Takes outlook (r >>= f) :=
  (h.confined.bind hf).takes
    (h.advances.bind (fun a _ ↦ hf a) fun _ hfalse ↦ absurd trivial hfalse)

theorem Takes.map {r : Reader α} (h : Takes outlook r) (f : α → β) :
    Takes outlook (r >>= fun a ↦ pure (f a)) := h.bind fun a ↦ confined_pure (f a)

/-- A reader that sees the next character sees nothing more than is then taken by another. -/
theorem Confined.bind_takes {r : Reader α} {f : α → Reader β} (h : Confined .next r)
    (hf : ∀ a, Takes outlook (f a)) : Takes outlook (r >>= f) := by
  intro text b rest hrun
  obtain ⟨a, middle, hread, hlater⟩ := bind_eq_ok_iff.mp hrun
  obtain ⟨front, rfl, hfront⟩ := h text a middle hread
  obtain ⟨back, hne, rfl, hback⟩ := hf a middle b rest hlater
  refine ⟨front ++ back, List.append_ne_nil_of_right_ne_nil front hne,
    by rw [List.append_assoc], ?_⟩
  intro more hmore
  rw [List.append_assoc]
  exact bind_eq_ok_iff.mpr
    ⟨a, back ++ more, hfront _ (Outlook.same_append hne rest more), hback more hmore⟩

/-! ## Looking ahead -/

theorem confined_peek : Confined .next peek := by
  intro text next rest hrun
  obtain ⟨rfl, rfl⟩ := Prod.mk.inj (Except.ok.inj hrun)
  refine ⟨[], rfl, fun more hmore ↦ ?_⟩
  have hhead : text.head? = more.head? := hmore
  rw [List.nil_append, peek_apply, hhead]

theorem confined_advance : Confined .next advance := by
  intro text _ rest hrun
  obtain ⟨-, rfl⟩ := Prod.mk.inj (Except.ok.inj hrun)
  cases text with
  | nil =>
    refine ⟨[], rfl, fun more hmore ↦ ?_⟩
    have hhead : none = more.head? := hmore
    rw [List.head?_eq_none_iff.mp hhead.symm]
    rfl
  | cons c text => exact ⟨[c], rfl, fun more _ ↦ rfl⟩

/-- Dropping the characters of a kind depends on the first that is not of it. -/
theorem dropWhile_append_of_same {p : Char → Bool} {text more : List Char}
    (h : Outlook.next.Same (text.dropWhile p) more) :
    (text.takeWhile p ++ more).takeWhile p = text.takeWhile p ∧
      (text.takeWhile p ++ more).dropWhile p = more := by
  have hall : ∀ c ∈ text.takeWhile p, p c = true :=
    List.all_eq_true.mp List.all_takeWhile
  have hhead : (text.dropWhile p).head? = more.head? := h
  have hfirst : ∀ c ∈ more.head?, p c = false := by
    intro c hc
    rw [← hhead] at hc
    have hdrop := List.head?_dropWhile_not p text
    rw [Option.mem_def.mp hc] at hdrop
    simpa using hdrop
  rw [List.takeWhile_append_of_pos hall, List.dropWhile_append_of_pos hall]
  cases more with
  | nil => simp
  | cons c more =>
    have hc : ¬ p c = true := by simp [hfirst c rfl]
    rw [List.takeWhile_cons_of_neg hc, List.dropWhile_cons_of_neg hc, List.append_nil]
    exact ⟨rfl, rfl⟩

theorem confined_blanks : Confined .next (modify (List.dropWhile isBlank) : Reader PUnit) := by
  intro text _ rest hrun
  obtain ⟨-, rfl⟩ := Prod.mk.inj (Except.ok.inj hrun)
  refine ⟨text.takeWhile isBlank, List.takeWhile_append_dropWhile.symm, fun more hmore ↦ ?_⟩
  change Except.ok ((), (text.takeWhile isBlank ++ more).dropWhile isBlank) = _
  rw [(dropWhile_append_of_same hmore).2]

/-- Blanks are dropped and one character is looked at. -/
theorem confined_upcoming : Confined .next upcoming := confined_blanks.bind fun _ ↦ confined_peek

theorem confined_demand : Confined .next demand := by
  apply confined_upcoming.bind
  intro next
  cases next with
  | none => exact (gives_failNext _).confined
  | some c => exact confined_pure c

/-- The same behind a first character, which was seen before and is read now. -/
def ConfinedPast (outlook : Outlook) (c : Char) (r : Reader α) : Prop :=
  Confined outlook fun rest ↦ r (c :: rest)

/-- Once a character has been seen it is taken, or the reader fails. -/
theorem takes_peek {k : Option Char → Reader α} (hnone : Gives (k none) fun _ ↦ False)
    (hsome : ∀ c, ConfinedPast outlook c (k (some c))) :
    Takes outlook (peek >>= k) := by
  intro text a rest hrun
  cases text with
  | nil => exact (hnone [] a rest hrun).elim
  | cons c text =>
    obtain ⟨front, rfl, hmore⟩ := hsome c text a rest hrun
    exact ⟨c :: front, List.cons_ne_nil c front, rfl, hmore⟩

theorem takes_upcoming {k : Option Char → Reader α} (hnone : Gives (k none) fun _ ↦ False)
    (hsome : ∀ c, ConfinedPast outlook c (k (some c))) :
    Takes outlook (upcoming >>= k) := by
  rw [upcoming, bind_assoc]
  exact confined_blanks.bind_takes fun _ ↦ takes_peek hnone hsome

/-- The same behind blanks, where the end of the text is a failure. -/
theorem takes_demand {k : Char → Reader α} (h : ∀ c, ConfinedPast outlook c (k c)) :
    Takes outlook (demand >>= k) := by
  rw [demand_bind]
  exact takes_upcoming (gives_failNext _) h

/-- What takes something takes it also behind a character that has been seen. -/
theorem Takes.past {r : Reader α} (h : Takes outlook r) (c : Char) :
    ConfinedPast outlook c r := by
  intro text a rest hrun
  obtain ⟨front, hne, htext, hmore⟩ := h _ a rest hrun
  obtain ⟨d, others, rfl⟩ := List.exists_cons_of_ne_nil hne
  obtain ⟨rfl, rfl⟩ := List.cons.inj htext
  exact ⟨others, rfl, hmore⟩

theorem Gives.past {r : Reader α} (h : Gives r fun _ ↦ False) (c : Char) :
    ConfinedPast outlook c r := h.takes.past c

theorem Confined.advance {r : Reader α} (h : Confined outlook r) (c : Char) :
    ConfinedPast outlook c (Reader.advance >>= fun _ ↦ r) := h

theorem confinedPast_advance (c : Char) : ConfinedPast outlook c advance := confined_pure ()

/-- The characters of a word are taken one by one. -/
theorem takes_word {characters : List Char} (h : characters ≠ []) :
    Takes outlook (word characters) := by
  induction characters with
  | nil => exact absurd rfl h
  | cons c others ih =>
    apply takes_peek (gives_failHere _)
    intro d
    dsimp only
    split
    · cases others with
      | nil => exact (confined_pure ()).advance d
      | cons e others => exact (ih (List.cons_ne_nil e others)).confined.advance d
    · exact (gives_failNext _).past d

/-! ## Loops -/

variable {step : σ → Reader (σ ⊕ α)}

/-- Every round but the last reads something, so that the front that is read has room for all of
them, whatever the number of rounds that are granted for the whole text. -/
theorem exists_front_of_repeatFor (hstep : ∀ s, Confined outlook (step s))
    (hprogress : ∀ s, Advances (step s) (·.isLeft)) {rounds : Nat} {s : σ}
    {text rest : List Char} {a : α} (hrun : repeatFor step rounds s text = .ok (a, rest)) :
    ∃ front, text = front ++ rest ∧ ∀ more, outlook.Same rest more → ∀ granted,
      front.length < granted → repeatFor step granted s (front ++ more) = .ok (a, more) := by
  induction rounds generalizing s text with
  | zero => cases hrun
  | succ rounds ih =>
    obtain ⟨out, middle, hround, hlater⟩ := bind_eq_ok_iff.mp hrun
    obtain ⟨front, rfl, hfront⟩ := hstep s text out middle hround
    cases out with
    | inr result =>
      obtain ⟨rfl, rfl⟩ := pure_eq_ok_iff.mp hlater
      refine ⟨front, rfl, fun more hmore granted hgranted ↦ ?_⟩
      obtain ⟨fewer, rfl⟩ := Nat.exists_eq_add_one.mpr (Nat.zero_lt_of_lt hgranted)
      exact repeatFor_inr (hfront more hmore) fewer
    | inl next =>
      -- This round has read something, so that the rest of the front has room for one round less.
      have hread := hprogress s _ _ _ hround rfl
      rw [List.length_append] at hread
      obtain ⟨back, rfl, hback⟩ := ih hlater
      refine ⟨front ++ back, by rw [List.append_assoc], fun more hmore granted hgranted ↦ ?_⟩
      obtain ⟨fewer, rfl⟩ := Nat.exists_eq_add_one.mpr (Nat.zero_lt_of_lt hgranted)
      rw [List.length_append] at hgranted
      rw [List.append_assoc, repeatFor_inl (hfront _ (hmore.append back))]
      exact hback more hmore fewer (by omega)

/-- A loop whose rounds all advance has rounds enough, whatever the length of the text is. -/
theorem confined_repeatFrom (hstep : ∀ s, Confined outlook (step s))
    (hprogress : ∀ s, Advances (step s) (·.isLeft)) (start : σ) :
    Confined outlook (repeatFrom start step) := by
  intro text a rest hrun
  obtain ⟨front, htext, hmore⟩ := exists_front_of_repeatFor hstep hprogress hrun
  refine ⟨front, htext, fun more hsame ↦ hmore more hsame _ ?_⟩
  rw [List.length_append]
  omega

theorem takes_repeatFrom (h : ∀ s, Takes outlook (step s)) (start : σ) :
    Takes outlook (repeatFrom start step) := by
  have hstep : ∀ s, Confined outlook (step s) := fun s ↦ (h s).confined
  have hprogress : ∀ s, Advances (step s) (·.isLeft) := fun s ↦ (h s).advances
  apply (confined_repeatFrom hstep hprogress start).takes
  intro text a rest hrun _
  rw [repeatFrom, bind_apply, get_apply] at hrun
  obtain ⟨out, middle, hround, hlater⟩ := bind_eq_ok_iff.mp hrun
  obtain ⟨front, hne, rfl, -⟩ := h start text out middle hround
  have hfirst := List.length_pos_of_ne_nil hne
  rw [List.length_append]
  cases out with
  | inr result =>
    obtain ⟨-, rfl⟩ := pure_eq_ok_iff.mp hlater
    omega
  | inl next =>
    obtain ⟨back, rfl, -⟩ := exists_front_of_repeatFor hstep hprogress hlater
    rw [List.length_append]
    omega

end Json.Reader

end BLTree

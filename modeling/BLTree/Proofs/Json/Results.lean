import BLTree.Json.Decode
import BLTree.Proofs.Programs

/-!
# What readers can give

How a reader acts on a given text, as equations for its building blocks, and what can be said of the
values that it gives whatever the text is. The rules follow the building blocks of readers. Applied
to the readers of statements and programs they say that only sound values are ever decoded.
-/

namespace BLTree

namespace Json.Reader

variable {α β σ : Type}

/-- A failure skips all that follows. -/
@[simp]
theorem bind_apply (r : Reader α) (f : α → Reader β) (text : List Char) :
    (r >>= f) text = match r text with
      | .ok (a, rest) => f a rest
      | .error failure => .error failure := by
  change StateT.bind r f text = _
  unfold StateT.bind
  cases r text <;> rfl

theorem bind_of_ok {r : Reader α} {a : α} {text rest : List Char} (h : r text = .ok (a, rest))
    (f : α → Reader β) : (r >>= f) text = f a rest := by
  rw [bind_apply, h]

theorem bind_of_error {r : Reader α} {text : List Char} {failure : Failure}
    (h : r text = .error failure) (f : α → Reader β) : (r >>= f) text = .error failure := by
  rw [bind_apply, h]

@[simp]
theorem pure_apply (a : α) (text : List Char) : (pure a : Reader α) text = .ok (a, text) := rfl

@[simp]
theorem map_apply (f : α → β) (r : Reader α) (text : List Char) :
    (f <$> r) text = match r text with
      | .ok (a, rest) => .ok (f a, rest)
      | .error failure => .error failure := by
  change StateT.map f r text = _
  unfold StateT.map
  cases r text <;> rfl

/-- The failure is placed at the character that was read last. -/
@[simp]
theorem failHere_apply (cause : Cause) (text : List Char) :
    (failHere cause : Reader α) text = .error ⟨cause, text, some 0⟩ := rfl

/-- The failure is placed at the character that is next. -/
@[simp]
theorem failNext_apply (cause : Cause) (text : List Char) :
    (failNext cause : Reader α) text = .error ⟨cause, text, some 1⟩ := rfl

/-- The failure has no place yet; the bracket around it gives it one. -/
@[simp]
theorem mismatch_apply (m : Mismatch) (text : List Char) :
    (mismatch m : Reader α) text = .error ⟨.mismatch m, text, none⟩ := rfl

/-- A round that goes on leaves one round less. -/
theorem repeatFor_inl {step : σ → Reader (σ ⊕ α)} {a next : σ} {text rest : List Char}
    (h : step a text = .ok (.inl next, rest)) (rounds : Nat) :
    repeatFor step (rounds + 1) a text = repeatFor step rounds next rest := by
  simp [repeatFor, h]

theorem repeatFor_inr {step : σ → Reader (σ ⊕ α)} {a : σ} {result : α} {text rest : List Char}
    (h : step a text = .ok (.inr result, rest)) (rounds : Nat) :
    repeatFor step (rounds + 1) a text = .ok (result, rest) := by
  simp [repeatFor, h]

/-- Changing a failure does not turn it into a success. -/
theorem mapError_eq_ok_iff {ε ε' : Type} {outcome : Except ε α} {f : ε → ε'} {a : α} :
    outcome.mapError f = .ok a ↔ outcome = .ok a := by
  cases outcome <;> simp [Except.mapError]

/-! ## The values of a reader -/

/-- Every value that the reader gives, from any text, has `post`. -/
def Gives (r : Reader α) (post : α → Prop) : Prop :=
  ∀ text a rest, r text = .ok (a, rest) → post a

variable {post : α → Prop}

/-- A weaker property is given as well. -/
theorem Gives.imp {r : Reader α} {post' : α → Prop} (hr : Gives r post)
    (h : ∀ a, post a → post' a) : Gives r post' := fun text a rest hrun ↦
  h a (hr text a rest hrun)

/-- A reader gives something, or nothing at all. -/
theorem gives_any (r : Reader α) : Gives r fun _ ↦ True := fun _ _ _ _ ↦ trivial

theorem gives_pure {a : α} (h : post a) : Gives (pure a) post := by
  intro text b rest hrun
  rw [pure_apply] at hrun
  obtain ⟨rfl, -⟩ := Prod.mk.inj (Except.ok.inj hrun)
  exact h

theorem gives_failHere (cause : Cause) : Gives (failHere cause : Reader α) post := nofun

theorem gives_failNext (cause : Cause) : Gives (failNext cause : Reader α) post := nofun

theorem gives_mismatch (m : Mismatch) : Gives (mismatch m : Reader α) post := nofun

/-- The second reader may rely on what the first has given. -/
theorem Gives.bind {r : Reader β} {f : β → Reader α} {mid : β → Prop} (hr : Gives r mid)
    (hf : ∀ b, mid b → Gives (f b) post) : Gives (r >>= f) post := by
  intro text a rest hrun
  rw [bind_apply] at hrun
  cases hfirst : r text with
  | error failure => simp [hfirst] at hrun
  | ok pair =>
    obtain ⟨b, left⟩ := pair
    rw [hfirst] at hrun
    exact hf b (hr text b left hfirst) left a rest hrun

/-- What passes a check has been checked. -/
theorem gives_vetted {outcome : Except Fault α} (h : ∀ a, outcome = .ok a → post a) :
    Gives (vetted outcome) post := by
  cases outcome with
  | ok a => exact gives_pure (h a rfl)
  | error fault => exact gives_mismatch _

theorem gives_wrongType (expected : String) : Gives (wrongType expected : Reader α) post :=
  (gives_any found).bind fun _ _ ↦ gives_failHere _

/-- A loop gives what its last round gives, if every round before it keeps the invariant. -/
theorem gives_repeatFor {step : σ → Reader (σ ⊕ α)} (inv : σ → Prop)
    (hstep : ∀ a, inv a → Gives (step a) (Sum.elim inv post)) (rounds : Nat) {a : σ} (ha : inv a) :
    Gives (repeatFor step rounds a) post := by
  induction rounds generalizing a with
  | zero => exact gives_failHere _
  | succ rounds ih =>
    refine (hstep a ha).bind ?_
    intro next hnext
    cases next with
    | inl next => exact ih hnext
    | inr result => exact gives_pure hnext

/-- An invariant of the rounds holds of what the loop gives in the end. -/
theorem gives_repeatFrom {step : σ → Reader (σ ⊕ α)} (inv : σ → Prop)
    (hstep : ∀ a, inv a → Gives (step a) (Sum.elim inv post)) {start : σ} (hstart : inv start) :
    Gives (repeatFrom start step) post := by
  refine (gives_any get).bind ?_
  intro text _
  exact gives_repeatFor inv hstep (text.length + 2) hstart

/-- Inside of a bracket there is one less to open. -/
theorem gives_enclosed {close : Reader Unit} {inner : Nat → Reader α} {post : Nat → α → Prop}
    (h : ∀ budget, Gives (inner budget) (post budget)) (budget : Nat) :
    Gives (enclosed close inner budget) fun a ↦ ∃ left, budget = left + 1 ∧ post left a := by
  cases budget with
  | zero => exact gives_failNext _
  | succ budget =>
    have hinner : Gives (fun rest ↦ (inner budget rest).mapError (settledBy close))
        (post budget) := by
      intro text a rest hrun
      exact h budget text a rest (mapError_eq_ok_iff.mp hrun)
    refine (gives_any advance).bind ?_
    intro _ _
    refine hinner.bind ?_
    intro a ha
    refine (gives_any close).bind ?_
    intro _ _
    exact gives_pure ⟨budget, rfl, ha⟩

/-- All items have what each of them is read to have. -/
theorem gives_items {item : Reader α} (h : Gives item post) :
    Gives (items item) fun values ↦ ∀ a ∈ values, post a := by
  refine gives_repeatFrom (fun done ↦ ∀ a ∈ done, post a) ?_ nofun
  intro done hdone
  refine (gives_any (anotherItem done.isEmpty)).bind ?_
  intro more _
  split
  · refine h.bind ?_
    intro a ha
    exact gives_pure (List.forall_mem_cons.mpr ⟨ha, hdone⟩)
  · refine gives_pure ?_
    intro a ha
    exact hdone a (List.mem_reverse.mp ha)

/-- A draft keeps an invariant if every member that is known keeps it. -/
theorem gives_members {start : σ} {member : String → σ → Option (Reader σ)} {inv : σ → Prop}
    (hstart : inv start)
    (hmember : ∀ key draft read, inv draft → member key draft = some read → Gives read inv) :
    Gives (members start member) inv := by
  refine gives_repeatFrom (fun state ↦ inv state.2) ?_ hstart
  intro (first, draft) hdraft
  refine (gives_any (anotherKey first)).bind ?_
  intro key _
  cases key with
  | none => exact gives_pure hdraft
  | some key =>
    dsimp only
    split
    · rename_i read hread
      refine (hmember key draft read hdraft hread).bind ?_
      intro next hnext
      exact gives_pure hnext
    · refine (gives_any colon).bind ?_
      intro _ _
      refine (gives_any skipValue).bind ?_
      intro _ _
      exact gives_pure hdraft

theorem gives_once {key : String} {earlier : Option α} {read : Reader α} (h : Gives read post) :
    Gives (once key earlier read) post := by
  unfold once
  split
  · exact (gives_any _).bind fun _ _ ↦ (gives_any _).bind fun _ _ ↦ h
  · exact (gives_any _).bind fun _ _ ↦ h

theorem gives_required {key : String} {value : Option α} :
    Gives (required key value) fun a ↦ value = some a := by
  cases value with
  | some a => exact gives_pure rfl
  | none => exact gives_mismatch _

/-- Both forms of a record give values of the same sort. -/
theorem gives_record {title : String} {named positional : Nat → Reader α} {post : Nat → α → Prop}
    (hnamed : ∀ budget, Gives (named budget) (post budget))
    (hpositional : ∀ budget, Gives (positional budget) (post budget)) (budget : Nat) :
    Gives (record title named positional budget) fun a ↦
      ∃ left, budget = left + 1 ∧ post left a := by
  refine (gives_any demand).bind ?_
  intro c _
  split
  · exact gives_enclosed hnamed budget
  · exact gives_enclosed hpositional budget
  · exact gives_wrongType _

theorem gives_place {title : String} {count position : Nat} {read : Reader α}
    (h : Gives read post) : Gives (place title count position read) post := by
  refine (gives_any _).bind ?_
  intro more _
  split
  · exact h
  · exact gives_mismatch _

end Json.Reader

open Json Reader

/-! ## Statements and programs -/

/-- A statement that was read has passed the shape check. -/
theorem Statement.gives_reader (budget : Nat) :
    Gives (Statement.reader budget) Statement.Sound := by
  refine (gives_any (Tree.reader Label.reader budget)).bind ?_
  intro t _
  refine gives_vetted ?_
  intro s hs
  have haccepted := ofTree_eq_ok_iff.mp (mapError_eq_ok_iff.mp hs)
  rw [Statement.Sound, haccepted.2]
  exact haccepted.1

section

-- What is known of the statements that are read with a given budget is known of all procedures and
-- of the body of a program, with the budgets that are left for them.
variable {good : Nat → Statement → Prop}

/-- All procedures are good for the budget inside the bracket of their context. -/
def Context.AllWithin (good : Nat → Statement → Prop) (budget : Nat) (c : Context) : Prop :=
  ∀ entry ∈ c.entries, ∃ left, budget = left + 1 ∧ good left entry.2

/-- The bodies of a context are all read with the same budget. -/
theorem Context.gives_procedures (h : ∀ budget, Gives (Statement.reader budget) (good budget))
    (budget : Nat) :
    Gives (procedures budget) fun c ↦ ∀ entry ∈ c.entries, good budget entry.2 := by
  refine gives_repeatFrom (fun state ↦ ∀ entry ∈ state.2.entries, good budget entry.2) ?_ nofun
  intro (first, c) hc
  refine (gives_any (anotherKey first)).bind ?_
  intro key _
  cases key with
  | none => exact gives_pure hc
  | some key =>
    refine (gives_any (vetted (readIdentifier key))).bind ?_
    intro name _
    refine (gives_any colon).bind ?_
    intro _ _
    refine (h budget).bind ?_
    intro body hbody
    split
    · exact gives_mismatch _
    · refine gives_pure ?_
      intro entry hentry
      rcases mem_insertEntry hentry with rfl | hentry
      · exact hbody
      · exact hc entry hentry

/-- A context takes one bracket for itself. -/
theorem Context.gives_reader (h : ∀ budget, Gives (Statement.reader budget) (good budget))
    (budget : Nat) : Gives (Context.reader budget) (Context.AllWithin good budget) := by
  refine (gives_any demand).bind ?_
  intro c _
  split
  · refine (gives_enclosed (gives_procedures h) budget).imp ?_
    rintro c ⟨left, rfl, hc⟩ entry hentry
    exact ⟨left, rfl, hc entry hentry⟩
  · exact gives_wrongType _

namespace Program

/-- What is known of the parts of a program before they are checked together. -/
def Parts.AllWithin (good : Nat → Statement → Prop) (budget : Nat) (parts : Parts) : Prop :=
  parts.context.AllWithin good budget ∧ good budget parts.body

/-- What is known of the members of a program that have been read so far. -/
def Draft.AllWithin (good : Nat → Statement → Prop) (budget : Nat) (draft : Draft) : Prop :=
  (∀ c, draft.context = some c → c.AllWithin good budget) ∧
    ∀ body, draft.body = some body → good budget body

theorem gives_namedParts (h : ∀ budget, Gives (Statement.reader budget) (good budget))
    (budget : Nat) : Gives (namedParts budget) (Parts.AllWithin good budget) := by
  have hstart : Draft.AllWithin good budget {} := ⟨nofun, nofun⟩
  refine (gives_members hstart ?_).bind ?_
  · intro key draft read hdraft hread
    split at hread
    · cases hread
      refine (gives_any _).bind ?_
      intro name _
      exact gives_pure hdraft
    · cases hread
      refine (gives_once (Context.gives_reader h budget)).bind ?_
      intro c hc
      exact gives_pure ⟨fun _ h ↦ Option.some.inj h ▸ hc, hdraft.2⟩
    · cases hread
      refine (gives_once (h budget)).bind ?_
      intro body hbody
      exact gives_pure ⟨hdraft.1, fun _ h ↦ Option.some.inj h ▸ hbody⟩
    · cases hread
  · intro draft hdraft
    refine (gives_any (required "name" draft.name)).bind ?_
    intro name _
    have hcontext : (draft.context.getD .empty).AllWithin good budget := by
      cases hread : draft.context with
      | some c => exact hdraft.1 c hread
      | none => exact nofun
    dsimp only
    split
    · rename_i body hread
      exact (gives_pure (hdraft.2 body hread)).bind fun body hbody ↦ gives_pure ⟨hcontext, hbody⟩
    · exact (gives_vetted nofun).bind fun _ hfalse ↦ (hfalse : False).elim

theorem gives_positionalParts (h : ∀ budget, Gives (Statement.reader budget) (good budget))
    (budget : Nat) : Gives (positionalParts budget) (Parts.AllWithin good budget) := by
  refine (gives_any (place "RawProgram" 3 0 Identifier.reader)).bind ?_
  intro name _
  refine (gives_any (anotherItem false)).bind ?_
  intro more _
  have hfinish : ∀ c : Context, c.AllWithin good budget → Gives (do
      let body ← place "RawProgram" 3 2 (Statement.reader budget)
      return (⟨name, c, body⟩ : Parts)) (Parts.AllWithin good budget) := by
    intro c hc
    refine (gives_place (h budget)).bind ?_
    intro body hbody
    exact gives_pure ⟨hc, hbody⟩
  have hempty : Context.empty.AllWithin good budget := nofun
  dsimp only
  split
  · exact (Context.gives_reader h budget).bind hfinish
  · exact (gives_pure hempty).bind hfinish

/-- A program is made of parts that were read inside its own bracket and passed the check. -/
theorem gives_reader_within (h : ∀ budget, Gives (Statement.reader budget) (good budget))
    (budget : Nat) :
    Gives (Program.reader budget) fun p ↦ ∃ left parts, budget = left + 1 ∧
      Parts.AllWithin good left parts ∧ ofParts parts.name parts.context parts.body = .ok p := by
  refine (gives_record (gives_namedParts h) (gives_positionalParts h) budget).bind ?_
  rintro parts ⟨left, rfl, hparts⟩
  refine gives_vetted ?_
  intro p hp
  exact ⟨left, parts, rfl, hparts, mapError_eq_ok_iff.mp hp⟩

/-- A program that was decoded is sound. -/
theorem gives_reader (budget : Nat) : Gives (Program.reader budget) Program.Sound := by
  refine (gives_reader_within Statement.gives_reader budget).imp ?_
  rintro p ⟨left, parts, -, ⟨hcontext, hbody⟩, hp⟩
  refine sound_ofParts ?_ hbody hp
  intro entry hentry
  obtain ⟨_, -, hsound⟩ := hcontext entry hentry
  exact hsound

end Program

end

/-- A text that is decoded has been read. -/
theorem Json.exists_read_of_decode {α : Type} {reader : Nat → Reader α} {text : String} {a : α}
    (h : Json.decode reader text = .ok a) :
    ∃ rest, reader nestingLimit text.toList = .ok (a, rest) := by
  unfold Json.decode decodeChars at h
  cases hread : reader nestingLimit text.toList with
  | error failure =>
    rw [hread] at h
    cases h
  | ok pair =>
    rw [hread] at h
    simp only [bind, Except.bind] at h
    split at h
    · cases h
    · split at h
      · cases h
      · exact ⟨pair.2, by rw [← Except.ok.inj h]⟩

/-- Decoding gives nothing that the reader does not give. -/
theorem Json.decode_gives {α : Type} {reader : Nat → Reader α} {post : α → Prop}
    (h : ∀ budget, Gives (reader budget) post) {text : String} {a : α}
    (hdecode : Json.decode reader text = .ok a) : post a := by
  obtain ⟨rest, hread⟩ := exists_read_of_decode hdecode
  exact h nestingLimit text.toList a rest hread

end BLTree

import BLTree.Proofs.Json.ProgramConformance
import Mathlib.Data.List.Nodup

/-!
# Programs as their texts list them

A context sorts its procedures by name and looks them up by text. What a text says is simpler: it
lists procedures one after the other under names that may be any strings. A reader for that, which
checks no name and sorts nothing, goes through a text step by step with the reader of programs.
Whenever the latter gives a program, the procedures of the program are the listed ones: none is
lost, and what is found under a name is what is listed under it.
-/

namespace BLTree

namespace Json.Reader

variable {α β γ δ σ τ : Type} {R : α → β → Prop}

/-- For whatever the one reader gives, the other gives something related to it, and both read the
same text. -/
def Mirrored (R : α → β → Prop) (r : Reader α) (s : Reader β) : Prop :=
  ∀ text a rest, r text = .ok (a, rest) → ∃ b, s text = .ok (b, rest) ∧ R a b

theorem Mirrored.refl (r : Reader α) : Mirrored (· = ·) r r := by
  intro text a rest hrun
  exact ⟨a, hrun, rfl⟩

theorem mirrored_pure {a : α} {b : β} (h : R a b) : Mirrored R (pure a) (pure b) := by
  intro text a' rest hrun
  obtain ⟨rfl, rfl⟩ := pure_eq_ok_iff.mp hrun
  exact ⟨b, rfl, h⟩

/-- A reader that gives nothing. -/
theorem Gives.mirrored {r : Reader α} (h : Gives r fun _ ↦ False) (s : Reader β) :
    Mirrored R r s := fun text a rest hrun ↦ absurd hrun (h.ne_ok text (a, rest))

/-- Readers that follow each other may go on with related values. -/
theorem Mirrored.bind {S : γ → δ → Prop} {r : Reader α} {s : Reader β} {f : α → Reader γ}
    {g : β → Reader δ} (h : Mirrored R r s) (hf : ∀ a b, R a b → Mirrored S (f a) (g b)) :
    Mirrored S (r >>= f) (s >>= g) := by
  intro text c left hrun
  obtain ⟨a, rest, hread, hfinish⟩ := bind_eq_ok_iff.mp hrun
  obtain ⟨b, hread', hrelated⟩ := h text a rest hread
  obtain ⟨d, hfinish', hresult⟩ := hf a b hrelated rest c left hfinish
  exact ⟨d, bind_eq_ok_iff.mpr ⟨b, rest, hread', hfinish'⟩, hresult⟩

/-- A check reads nothing, so it need not be mirrored. -/
theorem mirrored_vetted_bind {outcome : Except Fault γ} {f : γ → Reader α} {s : Reader β}
    (h : ∀ c, outcome = .ok c → Mirrored R (f c) s) : Mirrored R (vetted outcome >>= f) s := by
  intro text a left hrun
  obtain ⟨c, rest, hcheck, hfinish⟩ := bind_eq_ok_iff.mp hrun
  obtain ⟨hc, rfl⟩ := vetted_eq_ok_iff.mp hcheck
  exact h c hc rest a left hfinish

/-- A check on one side only can make that side fail, which is allowed. -/
theorem Mirrored.vetted {outcome : α → Except Fault γ} {r : Reader α} {s : Reader β}
    {S : γ → β → Prop} (h : Mirrored R r s) (hS : ∀ a b c, R a b → outcome a = .ok c → S c b) :
    Mirrored S (r >>= fun a ↦ Reader.vetted (outcome a)) s := by
  intro text c left hrun
  obtain ⟨a, rest, hread, hcheck⟩ := bind_eq_ok_iff.mp hrun
  obtain ⟨hc, rfl⟩ := vetted_eq_ok_iff.mp hcheck
  obtain ⟨b, hread', hrelated⟩ := h text a left hread
  exact ⟨b, hread', hS a b c hrelated hc⟩

/-- Both loops go on or end together, and what relates their states is kept. -/
theorem mirrored_repeatFor {step : σ → Reader (σ ⊕ α)} {step' : τ → Reader (τ ⊕ β)}
    (inv : σ → τ → Prop)
    (hstep : ∀ a b, inv a b → Mirrored (Sum.LiftRel inv R) (step a) (step' b)) (rounds : Nat)
    {a : σ} {b : τ} (h : inv a b) :
    Mirrored R (repeatFor step rounds a) (repeatFor step' rounds b) := by
  induction rounds generalizing a b with
  | zero => exact (gives_failHere _).mirrored _
  | succ rounds ih =>
    apply (hstep a b h).bind
    intro next next' hnext
    cases hnext with
    | inl hnext => exact ih hnext
    | inr hresult => exact mirrored_pure hresult

theorem mirrored_repeatFrom {step : σ → Reader (σ ⊕ α)} {step' : τ → Reader (τ ⊕ β)}
    (inv : σ → τ → Prop)
    (hstep : ∀ a b, inv a b → Mirrored (Sum.LiftRel inv R) (step a) (step' b)) {start : σ}
    {start' : τ} (h : inv start start') :
    Mirrored R (repeatFrom start step) (repeatFrom start' step') := by
  apply (Mirrored.refl get).bind
  intro text _ heq
  subst heq
  exact mirrored_repeatFor inv hstep (text.length + 2) h

/-- A bracket looks the same to both sides. -/
theorem Mirrored.enclosed {inner : Nat → Reader α} {inner' : Nat → Reader β}
    (h : ∀ budget, Mirrored R (inner budget) (inner' budget)) (close : Reader Unit) (budget : Nat) :
    Mirrored R (enclosed close inner budget) (enclosed close inner' budget) := by
  cases budget with
  | zero => exact (gives_failNext _).mirrored _
  | succ budget =>
    have hinner : Mirrored R (fun text ↦ (inner budget text).mapError (settledBy close))
        fun text ↦ (inner' budget text).mapError (settledBy close) := by
      intro text a rest hrun
      obtain ⟨b, hread, hrelated⟩ := h budget text a rest (mapError_eq_ok_iff.mp hrun)
      exact ⟨b, mapError_eq_ok_iff.mpr hread, hrelated⟩
    apply (Mirrored.refl advance).bind
    intro _ _ _
    apply hinner.bind
    intro a b hrelated
    apply (Mirrored.refl close).bind
    intro _ _ _
    exact mirrored_pure hrelated

/-- Both sides have to know the same keys. -/
theorem Mirrored.members {member : String → σ → Option (Reader σ)}
    {member' : String → τ → Option (Reader τ)} {inv : σ → τ → Prop}
    (h : ∀ key draft draft', inv draft draft' →
      Option.Rel (Mirrored inv) (member key draft) (member' key draft')) {start : σ} {start' : τ}
    (hstart : inv start start') : Mirrored inv (members start member) (members start' member') := by
  apply mirrored_repeatFrom (fun state state' ↦ state.1 = state'.1 ∧ inv state.2 state'.2) ?_
    ⟨rfl, hstart⟩
  intro (first, draft) (_, draft') ⟨heq, hdraft⟩
  subst heq
  apply (Mirrored.refl (anotherKey first)).bind
  intro key _ heq
  subst heq
  cases key with
  | none => exact mirrored_pure (.inr hdraft)
  | some key =>
    have hread := h key draft draft' hdraft
    dsimp only
    generalize member key draft = read, member' key draft' = read' at hread ⊢
    cases hread with
    | some hread => exact hread.bind fun next next' hnext ↦ mirrored_pure (.inl ⟨rfl, hnext⟩)
    | none =>
      apply (Mirrored.refl colon).bind
      intro _ _ _
      apply (Mirrored.refl skipValue).bind
      intro _ _ _
      exact mirrored_pure (.inl ⟨rfl, hdraft⟩)

/-- A field that comes again is refused on both sides. -/
theorem Mirrored.once {read : Reader α} {read' : Reader β} (h : Mirrored R read read')
    (key : String) {earlier : Option α} {earlier' : Option β}
    (hearlier : Option.Rel R earlier earlier') :
    Mirrored R (once key earlier read) (once key earlier' read') := by
  cases hearlier with
  | @some a b _ =>
    have htwice : Gives (mismatch (.fieldTwice key) : Reader Unit) fun _ ↦ False :=
      gives_mismatch _
    have hrefused : Gives (Reader.once key (some a) read) fun _ ↦ False :=
      htwice.bind fun _ h ↦ h.elim
    exact hrefused.mirrored _
  | none => exact (Mirrored.refl colon).bind fun _ _ _ ↦ h

theorem Mirrored.place {read : Reader α} {read' : Reader β} (h : Mirrored R read read')
    (title : String) (count position : Nat) :
    Mirrored R (place title count position read) (place title count position read') := by
  apply (Mirrored.refl (anotherItem (position == 0))).bind
  intro more _ heq
  subst heq
  split
  · exact h
  · exact (gives_mismatch _).mirrored _

theorem Mirrored.record {named positional : Nat → Reader α} {named' positional' : Nat → Reader β}
    (hnamed : ∀ budget, Mirrored R (named budget) (named' budget))
    (hpositional : ∀ budget, Mirrored R (positional budget) (positional' budget)) (title : String)
    (budget : Nat) :
    Mirrored R (record title named positional budget) (record title named' positional' budget) := by
  apply (Mirrored.refl demand).bind
  intro c _ heq
  subst heq
  split
  · exact .enclosed hnamed closeObject budget
  · exact .enclosed hpositional closeList budget
  · exact (gives_wrongType _).mirrored _

end Json.Reader

open Json Json.Reader

namespace Program

/-- A program as a text lists it. -/
structure Listing where
  name : String
  procedures : List (String × Statement)
  body : Statement
  deriving DecidableEq

namespace Listing

/-- The parts of a listing that have been read so far. -/
structure Draft where
  name : Option String := none
  procedures : Option (List (String × Statement)) := none
  body : Option Statement := none

/-- Procedures in the order of the text, after the opening brace of a context. -/
def procedureList (budget : Nat) : Reader (List (String × Statement)) :=
  repeatFrom (true, []) fun (first, done) ↦ do
    match ← anotherKey first with
    | none => return .inr done.reverse
    | some key =>
      colon
      let body ← Statement.reader budget
      return .inl (false, (key, body) :: done)

def proceduresReader (budget : Nat) : Reader (List (String × Statement)) := do
  if (← demand) = '\x7b' then enclosed closeObject procedureList budget
  else wrongType "a map from procedure name to BLOCK statement"

/-- How a listing reads a member that it knows. -/
def member (budget : Nat) (key : String) (draft : Draft) : Option (Reader Draft) :=
  match key with
  | "name" => some do
    let name ← once key draft.name stringValue
    return { draft with name := some name }
  | "context" => some do
    let procedures ← once key draft.procedures (proceduresReader budget)
    return { draft with procedures := some procedures }
  | "body" => some do
    let body ← once key draft.body (Statement.reader budget)
    return { draft with body := some body }
  | _ => none

/-- The listing that has a name and a body. -/
def completed (draft : Draft) : Reader Listing := do
  let name ← required "name" draft.name
  let body ← required "body" draft.body
  return ⟨name, draft.procedures.getD [], body⟩

def named (budget : Nat) : Reader Listing := members {} (member budget) >>= completed

def positional (budget : Nat) : Reader Listing := do
  let title := "RawProgram"
  let name ← place title 3 0 stringValue
  let procedures ← if ← anotherItem false then proceduresReader budget else pure []
  let body ← place title 3 2 (Statement.reader budget)
  return ⟨name, procedures, body⟩

def reader : Nat → Reader Listing := record "RawProgram" named positional

end Listing

/-- What a text lists. -/
def list (text : String) : Except Failure Listing := Json.decode Listing.reader text

end Program

/-! ## Contexts and the procedures that are listed for them -/

namespace Context

/-- The procedures of a context are those of the list, in whatever order. -/
def Collects (c : Context) (procedures : List (String × Statement)) : Prop :=
  (c.entries.map fun entry ↦ (entry.1.text, entry.2)).Perm procedures

theorem collects_empty : empty.Collects [] := .nil

/-- A procedure with a new name is added on both sides. -/
theorem Collects.insert {c : Context} {procedures : List (String × Statement)}
    (h : c.Collects procedures) {name : Identifier} (hnew : c.contains name = false)
    (body : Statement) : (c.insert name body).Collects ((name.text, body) :: procedures) := by
  have hinsert := (perm_insert hnew body).map fun entry ↦ (entry.1.text, entry.2)
  exact hinsert.trans (h.cons (name.text, body))

/-- Names are different, so that there is only one entry to find under a name. -/
theorem get?_eq_some_iff {c : Context} {name : String} {body : Statement} :
    c.get? name = some body ↔ ∃ entry ∈ c.entries, (entry.1.text, entry.2) = (name, body) := by
  constructor
  · intro h
    obtain ⟨entry, hfind, rfl⟩ := Option.map_eq_some_iff.mp h
    have htext : entry.1.text = name := by simpa using List.find?_some hfind
    exact ⟨entry, List.mem_of_find?_eq_some hfind, by rw [htext]⟩
  · intro ⟨entry, hentry, heq⟩
    obtain ⟨rfl, rfl⟩ := Prod.mk.inj heq
    cases hfind : c.entries.find? fun other ↦ other.1.text == entry.1.text with
    | none => simpa using List.find?_eq_none.mp hfind entry hentry
    | some other =>
      have htext : other.1.text = entry.1.text := by simpa using List.find?_some hfind
      have hsame : other = entry :=
        List.inj_on_of_nodup_map c.nodup_names (List.mem_of_find?_eq_some hfind) hentry
          (Identifier.ext htext)
      rw [get?, hfind, hsame]
      rfl

/-- A context knows exactly the procedures that are listed, under the same names. -/
theorem Collects.get?_eq_some_iff {c : Context} {procedures : List (String × Statement)}
    (h : c.Collects procedures) {name : String} {body : Statement} :
    c.get? name = some body ↔ (name, body) ∈ procedures := by
  rw [Context.get?_eq_some_iff, ← h.mem_iff, List.mem_map]

/-- A context is collected in the order of names and a list in the order of the text. -/
theorem mirrored_procedures (budget : Nat) :
    Mirrored Collects (procedures budget) (Program.Listing.procedureList budget) := by
  apply mirrored_repeatFrom (fun state state' ↦ state.1 = state'.1 ∧ state.2.Collects state'.2) ?_
    ⟨rfl, collects_empty⟩
  intro (first, c) (_, done) ⟨heq, hc⟩
  subst heq
  apply (Mirrored.refl (anotherKey first)).bind
  intro key _ heq
  subst heq
  cases key with
  | none => exact mirrored_pure (.inr (hc.trans done.reverse_perm.symm))
  | some key =>
    apply mirrored_vetted_bind
    intro name hname
    obtain rfl := readIdentifier_eq_ok_iff.mp hname
    apply (Mirrored.refl colon).bind
    intro _ _ _
    apply (Mirrored.refl (Statement.reader budget)).bind
    intro body _ heq
    subst heq
    split
    · exact (gives_mismatch _).mirrored _
    · rename_i hnew
      exact mirrored_pure (.inl ⟨rfl, hc.insert (Bool.eq_false_iff.mpr hnew) body⟩)

theorem mirrored_reader (budget : Nat) :
    Mirrored Collects (Context.reader budget) (Program.Listing.proceduresReader budget) := by
  apply (Mirrored.refl demand).bind
  intro c _ heq
  subst heq
  split
  · exact .enclosed mirrored_procedures closeObject budget
  · exact (gives_wrongType _).mirrored _

end Context

/-! ## Programs and their listings -/

theorem Identifier.mirrored_reader :
    Mirrored (fun (name : Identifier) text ↦ name.text = text) Identifier.reader stringValue := by
  intro text name rest hrun
  obtain ⟨word, left, hread, hcheck⟩ := bind_eq_ok_iff.mp hrun
  obtain ⟨hname, rfl⟩ := vetted_eq_ok_iff.mp hcheck
  exact ⟨word, hread, (readIdentifier_eq_ok_iff.mp hname).symm⟩

namespace Program

/-- A listing gives the parts of a program. -/
structure Lists (parts : Parts) (listing : Listing) : Prop where
  name : parts.name.text = listing.name
  procedures : parts.context.Collects listing.procedures
  body : parts.body = listing.body

/-- The same for what has been read so far. -/
structure ListsSoFar (draft : Draft) (listing : Listing.Draft) : Prop where
  name : Option.Rel (fun name text ↦ name.text = text) draft.name listing.name
  procedures : Option.Rel Context.Collects draft.context listing.procedures
  body : Option.Rel (· = ·) draft.body listing.body

/-- Every member of a program is listed, and no other is known. -/
theorem mirrored_partMember (budget : Nat) (key : String) (draft : Draft)
    (listing : Listing.Draft) (h : ListsSoFar draft listing) :
    Option.Rel (Mirrored ListsSoFar) (partMember budget key draft)
      (Listing.member budget key listing) := by
  unfold partMember
  split
  · refine .some ((Identifier.mirrored_reader.once _ h.name).bind ?_)
    intro name text hname
    exact mirrored_pure ⟨.some hname, h.procedures, h.body⟩
  · refine .some (((Context.mirrored_reader budget).once _ h.procedures).bind ?_)
    intro context procedures hcontext
    exact mirrored_pure ⟨h.name, .some hcontext, h.body⟩
  · refine .some (((Mirrored.refl (Statement.reader budget)).once _ h.body).bind ?_)
    intro body _ hbody
    exact mirrored_pure ⟨h.name, h.procedures, .some hbody⟩
  · rename_i hname hcontext hbody
    have hunknown : Listing.member budget key listing = none := by
      simp only [Listing.member]
    rw [hunknown]
    exact .none

/-- What is missing in a program is missing in its listing. -/
theorem mirrored_completed {draft : Draft} {listing : Listing.Draft}
    (h : ListsSoFar draft listing) :
    Mirrored Lists (completed draft) (Listing.completed listing) := by
  obtain ⟨title, procedures, listedBody⟩ := listing
  obtain ⟨hname, hprocedures, hbody⟩ := h
  dsimp only at hname hprocedures hbody
  intro text parts rest hrun
  obtain ⟨⟨hpartName, hpartContext, hpartBody⟩, rfl⟩ := completed_eq_ok_iff.mp hrun
  rw [hpartName] at hname
  rw [hpartBody] at hbody
  cases hname with
  | some hname =>
    cases hbody with
    | some hbody =>
      refine ⟨_, rfl, hname, ?_, hbody⟩
      rw [← hpartContext]
      generalize draft.context = context at hprocedures
      cases hprocedures with
      | some hprocedures => exact hprocedures
      | none => exact Context.collects_empty

theorem mirrored_namedParts (budget : Nat) :
    Mirrored Lists (namedParts budget) (Listing.named budget) := by
  rw [namedParts_eq]
  apply (Mirrored.members (mirrored_partMember budget) ⟨.none, .none, .none⟩).bind
  intro draft listing h
  exact mirrored_completed h

theorem mirrored_positionalParts (budget : Nat) :
    Mirrored Lists (positionalParts budget) (Listing.positional budget) := by
  apply (Identifier.mirrored_reader.place "RawProgram" 3 0).bind
  intro name title hname
  apply (Mirrored.refl (anotherItem false)).bind
  intro more _ heq
  subst heq
  have hfinish : ∀ context procedures, Context.Collects context procedures →
      Mirrored Lists
        (place "RawProgram" 3 2 (Statement.reader budget) >>= fun body ↦
          pure ⟨name, context, body⟩)
        (place "RawProgram" 3 2 (Statement.reader budget) >>= fun body ↦
          pure ⟨title, procedures, body⟩) := by
    intro context procedures hcontext
    apply (Mirrored.refl (place "RawProgram" 3 2 (Statement.reader budget))).bind
    intro body _ hbody
    exact mirrored_pure ⟨hname, hcontext, hbody⟩
  cases more with
  | true => exact (Context.mirrored_reader budget).bind hfinish
  | false => exact (mirrored_pure Context.collects_empty).bind hfinish

theorem mirrored_partsReader (budget : Nat) :
    Mirrored Lists (partsReader budget) (Listing.reader budget) :=
  .record mirrored_namedParts mirrored_positionalParts "RawProgram" budget

theorem mirrored_reader (budget : Nat) :
    Mirrored (fun p listing ↦ Lists ⟨p.name, p.context, p.body⟩ listing) (Program.reader budget)
      (Listing.reader budget) := by
  apply (mirrored_partsReader budget).vetted
  intro parts listing p hlists hp
  obtain ⟨-, -, rfl⟩ := ofParts_eq_ok_iff.mp (mapError_eq_ok_iff.mp hp)
  exact hlists

end Program

/-- A whole text that is decoded is decoded on the other side, to a related value. -/
theorem Json.decode_of_mirrored {α β : Type} {R : α → β → Prop} {reader : Nat → Reader α}
    {reader' : Nat → Reader β} (h : ∀ budget, Mirrored R (reader budget) (reader' budget))
    {text : String} {a : α} (hdecode : Json.decode reader text = .ok a) :
    ∃ b, Json.decode reader' text = .ok b ∧ R a b := by
  obtain ⟨rest, hread⟩ := exists_read_of_decode hdecode
  obtain ⟨b, hread', hrelated⟩ := h nestingLimit text.toList a rest hread
  refine ⟨b, ?_, hrelated⟩
  -- Both readers leave the same rest, so the same blanks, or more than blanks, follow.
  simp only [Json.decode, decodeChars, hread, bind, Except.bind] at hdecode
  simp only [Json.decode, decodeChars, hread', bind, Except.bind]
  cases hnext : upcoming rest with
  | error failure =>
    rw [hnext] at hdecode
    cases hdecode
  | ok pair =>
    rw [hnext] at hdecode
    dsimp only at hdecode ⊢
    split at hdecode
    · cases hdecode
    · rename_i hend
      exact if_neg hend

/-- Whatever a text is decoded to, the text lists it. -/
theorem Program.list_of_decode {text : String} {p : Program} (h : decode text = .ok p) :
    ∃ listing, list text = .ok listing ∧ Lists ⟨p.name, p.context, p.body⟩ listing :=
  decode_of_mirrored mirrored_reader h

end BLTree

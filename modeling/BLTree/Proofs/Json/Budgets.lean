import BLTree.Proofs.Json.Trees

/-!
# Reading with fewer brackets

How many brackets a reader may open matters only if they run out. For every text, a reader that may
open fewer stops at the limit, or it does exactly what a reader does that may open more, down to the
failures. The rules follow the building blocks of readers.
-/

namespace BLTree

namespace Json.Reader

variable {α β σ : Type}

/-- The reader stops at the limit, or it does the same as the other one. -/
def Restricts (r s : Reader α) : Prop := ∀ text, TooDeep (r text) ∨ r text = s text

/-- The readers of the one family restrict those of the other that have at least their budget. -/
def Tightens (f g : Nat → Reader α) : Prop := ∀ m n, m ≤ n → Restricts (f m) (g n)

/-- A text that is read with some budget is read to the same result with any other, or it is too
deep for that one. -/
theorem Tightens.ok_or_tooDeep {f : Nat → Reader α} (h : Tightens f f) {m n : Nat}
    {text : List Char} {pair : α × List Char} (hread : f n text = .ok pair) :
    f m text = .ok pair ∨ TooDeep (f m text) := by
  rcases Nat.le_total m n with hle | hle
  · rcases h m n hle text with hdeep | heq
    · exact .inr hdeep
    · exact .inl (heq.trans hread)
  · rcases h n m hle text with ⟨left, hdeep⟩ | heq
    · rw [hread] at hdeep
      cases hdeep
    · exact .inl (heq.symm.trans hread)

theorem Restricts.refl (r : Reader α) : Restricts r r := fun _ ↦ .inr rfl

/-- No reader has fewer brackets than one that stops at once. -/
theorem restricts_tooDeep (s : Reader α) : Restricts (failNext (.breach .tooDeep)) s :=
  fun text ↦ .inl ⟨text, rfl⟩

/-- The continuations have to be compared only on values that the first reader can give. -/
theorem Restricts.bind_of_gives {r s : Reader α} {f g : α → Reader β} {post : α → Prop}
    (h : Restricts r s) (hs : Gives s post) (hf : ∀ a, post a → Restricts (f a) (g a)) :
    Restricts (r >>= f) (s >>= g) := by
  intro text
  rcases h text with hdeep | heq
  · exact .inl (hdeep.bind f)
  · rw [bind_apply, bind_apply, heq]
    cases hrun : s text with
    | error failure => exact .inr rfl
    | ok pair => exact hf pair.1 (hs text pair.1 pair.2 hrun) pair.2

theorem Restricts.bind {r s : Reader α} {f g : α → Reader β} (h : Restricts r s)
    (hf : ∀ a, Restricts (f a) (g a)) : Restricts (r >>= f) (s >>= g) :=
  h.bind_of_gives (gives_any s) fun a _ ↦ hf a

/-- A failure at the limit has its place already, so the bracket around it does not change it. -/
theorem Restricts.settled {r s : Reader α} (h : Restricts r s) (close : Reader Unit) :
    Restricts (fun text ↦ (r text).mapError (settledBy close))
      fun text ↦ (s text).mapError (settledBy close) := by
  intro text
  dsimp only
  rcases h text with ⟨left, hleft⟩ | heq
  · rw [hleft]
    exact .inl ⟨left, rfl⟩
  · rw [heq]
    exact .inr rfl

/-- A bracket takes one from both budgets. Without one left, the reader with fewer stops. -/
theorem Tightens.enclosed {f g : Nat → Reader α} (h : Tightens f g) (close : Reader Unit) :
    Tightens (enclosed close f) (enclosed close g) := by
  intro m n hle
  match m, n with
  | 0, _ => exact restricts_tooDeep _
  | m + 1, n + 1 =>
    apply (Restricts.refl advance).bind
    intro _
    apply ((h m n (Nat.le_of_succ_le_succ hle)).settled close).bind
    intro _
    exact .refl _

/-- Rounds can be compared one by one, by induction over their number. -/
theorem Restricts.repeatFor {step step' : σ → Reader (σ ⊕ α)}
    (h : ∀ a, Restricts (step a) (step' a)) (rounds : Nat) (a : σ) :
    Restricts (repeatFor step rounds a) (repeatFor step' rounds a) := by
  induction rounds generalizing a with
  | zero => exact .refl _
  | succ rounds ih =>
    apply (h a).bind
    intro next
    cases next with
    | inl next => exact ih next
    | inr result => exact .refl _

theorem Restricts.repeatFrom {step step' : σ → Reader (σ ⊕ α)}
    (h : ∀ a, Restricts (step a) (step' a)) (start : σ) :
    Restricts (repeatFrom start step) (repeatFrom start step') := by
  apply (Restricts.refl get).bind
  intro text
  exact .repeatFor h (text.length + 2) start

theorem Restricts.items {item item' : Reader α} (h : Restricts item item') :
    Restricts (items item) (items item') := by
  apply Restricts.repeatFrom
  intro done
  apply (Restricts.refl (anotherItem done.isEmpty)).bind
  intro more
  split
  · apply h.bind
    intro a
    exact .refl _
  · exact .refl _

/-- Both sides have to know the same keys. -/
theorem Restricts.members {member member' : String → σ → Option (Reader σ)}
    (h : ∀ key draft, Option.Rel Restricts (member key draft) (member' key draft)) (start : σ) :
    Restricts (members start member) (members start member') := by
  apply Restricts.repeatFrom
  intro (first, draft)
  apply (Restricts.refl (anotherKey first)).bind
  intro key
  cases key with
  | none => exact .refl _
  | some key =>
    have hread := h key draft
    dsimp only
    generalize member key draft = read, member' key draft = read' at hread ⊢
    cases hread with
    | some hread => exact hread.bind fun _ ↦ .refl _
    | none => exact .refl _

theorem Restricts.once {read read' : Reader α} (h : Restricts read read') (key : String)
    (earlier : Option α) : Restricts (once key earlier read) (once key earlier read') := by
  unfold Reader.once
  split
  · exact (Restricts.refl _).bind fun _ ↦ (Restricts.refl _).bind fun _ ↦ h
  · exact (Restricts.refl _).bind fun _ ↦ h

theorem Restricts.place {read read' : Reader α} (h : Restricts read read') (title : String)
    (count position : Nat) :
    Restricts (place title count position read) (place title count position read') := by
  apply (Restricts.refl (anotherItem (position == 0))).bind
  intro more
  split
  · exact h
  · exact .refl _

/-- Either form of a record opens one bracket. -/
theorem Tightens.record {named named' positional positional' : Nat → Reader α}
    (hnamed : Tightens named named') (hpositional : Tightens positional positional')
    (title : String) :
    Tightens (record title named positional) (record title named' positional') := by
  intro m n hle
  apply (Restricts.refl demand).bind
  intro c
  split
  · exact hnamed.enclosed closeObject m n hle
  · exact hpositional.enclosed closeList m n hle
  · exact .refl _

variable {choices : List (String × Payload α)}

/-- A name that is not among the choices is refused. -/
theorem gives_chosen (name : String) :
    Gives (chosen choices name) fun payload ↦ choices.lookup name = some payload := by
  unfold chosen
  split
  · rename_i payload hpayload
    exact gives_pure hpayload
  · exact gives_failHere _

/-- The payload is read with one bracket less. -/
theorem tightens_taggedVariant
    (h : ∀ name payload, choices.lookup name = some payload →
      Tightens payload.value payload.value) :
    Tightens (taggedVariant choices) (taggedVariant choices) := by
  intro m n hle
  match m, n with
  | 0, _ => exact restricts_tooDeep _
  | m + 1, n + 1 =>
    apply (Restricts.refl advance).bind
    intro _
    apply (Restricts.refl upcoming).bind
    intro next
    split
    · apply (Restricts.refl advance).bind
      intro _
      apply (Restricts.refl string).bind
      intro name
      apply (Restricts.refl _).bind_of_gives (gives_chosen name)
      intro payload hpayload
      apply (Restricts.refl colon).bind
      intro _
      apply (h name payload hpayload m n (Nat.le_of_succ_le_succ hle)).bind
      intro _
      exact .refl _
    · exact .refl _
    · exact .refl _
    · exact .refl _

/-- A bare name needs no bracket, whatever the budget is. -/
theorem tightens_variant
    (h : ∀ name payload, choices.lookup name = some payload →
      Tightens payload.value payload.value) :
    Tightens (variant choices) (variant choices) := by
  intro m n hle
  apply (Restricts.refl upcoming).bind
  intro next
  split
  · exact tightens_taggedVariant h m n hle
  · exact .refl _
  · exact .refl _
  · exact .refl _

end Json.Reader

open Json Json.Reader

/-! ## Labels and trees -/

theorem Condition.tightens_reader : Tightens Condition.reader Condition.reader := by
  apply tightens_variant
  intro name payload hname
  obtain ⟨c, -, rfl⟩ := (lookup_spelling_iff lookup_spelling name payload).mp hname
  exact fun _ _ _ ↦ .refl _

namespace Label

/-- Whether a kind carries nothing, a condition or a name, its payload opens no bracket by itself.
-/
theorem tightens_payload (k : Kind) : Tightens (payload k).value (payload k).value := by
  intro m n hle
  cases k with
  | block => exact .refl _
  | ifThen | ifElse | whileDo => exact (Condition.tightens_reader m n hle).bind fun _ ↦ .refl _
  | call => exact .refl _

theorem tightens_reader : Tightens Label.reader Label.reader := by
  apply tightens_variant
  intro name payload hname
  obtain ⟨k, -, rfl⟩ := (lookup_spelling_iff lookup_payload name payload).mp hname
  exact tightens_payload k

end Label

namespace Tree

variable {L : Type} {label : Nat → Reader L} {child child' : Reader (Tree L)}

/-- The list of the children takes a bracket of its own. -/
theorem tightens_childrenReader (h : Restricts child child') :
    Tightens (childrenReader child) (childrenReader child') := by
  intro m n hle
  apply (Restricts.refl demand).bind
  intro c
  split
  · exact Tightens.enclosed (fun _ _ _ ↦ h.items) closeList m n hle
  · exact .refl _

theorem tightens_namedNode (hlabel : Tightens label label) (h : Restricts child child') :
    Tightens (namedNode label child) (namedNode label child') := by
  intro m n hle
  apply (Restricts.members ?_ _).bind fun _ ↦ .refl _
  intro key draft
  split
  · exact .some (((hlabel m n hle).once _ _).bind fun _ ↦ .refl _)
  · exact .some (((tightens_childrenReader h m n hle).once _ _).bind fun _ ↦ .refl _)
  · exact .none

theorem tightens_positionalNode (hlabel : Tightens label label) (h : Restricts child child') :
    Tightens (positionalNode label child) (positionalNode label child') := by
  intro m n hle
  apply ((hlabel m n hle).place "Node" 2 0).bind
  intro l
  exact ((tightens_childrenReader h m n hle).place "Node" 2 1).bind fun _ ↦ .refl _

theorem tightens_readerWith (hlabel : Tightens label label) (h : Restricts child child') :
    Tightens (readerWith label child) (readerWith label child') := by
  intro m n hle
  apply (Restricts.refl upcoming).bind
  intro c
  split
  · exact .refl _
  · exact (tightens_namedNode hlabel h).record (tightens_positionalNode hlabel h) "Node" m n hle

/-- However deep it is, a tree is read in the same way but for its children. -/
theorem exists_reader_eq (label : Nat → Reader L) (budget : Nat) :
    ∃ child, Tree.reader label budget = readerWith label child budget := by
  match budget with
  | 0 | 1 | budget + 2 => exact ⟨_, rfl⟩

/-- Trees, by recursion on the smaller budget in steps of two. -/
theorem tightens_reader (hlabel : Tightens label label) :
    Tightens (Tree.reader label) (Tree.reader label) := by
  intro m n hle
  match m, n with
  | 0, n =>
    obtain ⟨child, hchild⟩ := exists_reader_eq label n
    rw [hchild]
    exact tightens_readerWith hlabel (restricts_tooDeep child) 0 n hle
  | 1, n =>
    obtain ⟨child, hchild⟩ := exists_reader_eq label n
    rw [hchild]
    exact tightens_readerWith hlabel (restricts_tooDeep child) 1 n hle
  | m + 2, n + 2 =>
    have hchild := tightens_reader hlabel m n (by omega)
    exact tightens_readerWith hlabel hchild (m + 2) (n + 2) hle

end Tree

/-- The shape check comes behind the tree and does not look at the budget. -/
theorem Statement.tightens_reader : Tightens Statement.reader Statement.reader := fun m n hle ↦
  (Tree.tightens_reader Label.tightens_reader m n hle).bind fun _ ↦ .refl _

/-- Whether a name is taken does not depend on the budget either. -/
theorem Context.tightens_procedures : Tightens procedures procedures := by
  intro m n hle
  apply Restricts.repeatFrom
  intro (first, c)
  apply (Restricts.refl (anotherKey first)).bind
  intro key
  cases key with
  | none => exact .refl _
  | some key =>
    apply (Restricts.refl _).bind
    intro name
    apply (Restricts.refl colon).bind
    intro _
    exact (Statement.tightens_reader m n hle).bind fun _ ↦ .refl _

theorem Context.tightens_reader : Tightens Context.reader Context.reader := by
  intro m n hle
  apply (Restricts.refl demand).bind
  intro c
  split
  · exact tightens_procedures.enclosed closeObject m n hle
  · exact .refl _

namespace Program

theorem tightens_namedParts : Tightens namedParts namedParts := by
  intro m n hle
  apply (Restricts.members ?_ _).bind fun _ ↦ .refl _
  intro key draft
  split
  · exact .some (.refl _)
  · exact .some (((Context.tightens_reader m n hle).once _ _).bind fun _ ↦ .refl _)
  · exact .some (((Statement.tightens_reader m n hle).once _ _).bind fun _ ↦ .refl _)
  · exact .none

theorem tightens_positionalParts : Tightens positionalParts positionalParts := by
  intro m n hle
  apply (Restricts.refl _).bind
  intro name
  apply (Restricts.refl _).bind
  intro more
  have hbody := (Statement.tightens_reader m n hle).place "RawProgram" 3 2
  dsimp only
  split
  · apply (Context.tightens_reader m n hle).bind
    intro c
    exact hbody.bind fun _ ↦ .refl _
  · apply (Restricts.refl _).bind
    intro c
    exact hbody.bind fun _ ↦ .refl _

theorem tightens_reader : Tightens Program.reader Program.reader := by
  intro m n hle
  apply (tightens_namedParts.record tightens_positionalParts "RawProgram" m n hle).bind
  intro parts
  exact .refl _

end Program

end BLTree

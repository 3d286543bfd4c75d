import BLTree.Proofs.Json.Acceptance
import Mathlib.Data.List.Forall2

/-!
# Lists, objects and records that readers accept

The loop over the members of an object is described once, by what each member makes of the draft
that the loop carries. For a record this comes to the same as looking at each key on its own: a
field is filled by the one value under its key, and a second value is refused.
-/

namespace BLTree.Json

namespace Reader

variable {α β γ σ : Type}

/-! ## Loops -/

/-- The pieces that a loop reads one by one, each with the comma before it. -/
def piecesFrom (piece : Bool → γ → List Char) (first : Bool) : List γ → List Char
  | [] => []
  | x :: xs => piece first x ++ piecesFrom piece false xs

/-- What all pieces together make of the state of a loop. -/
def Absorbed (absorbs : γ → σ → σ → Prop) : List γ → σ → σ → Prop
  | [], s, t => s = t
  | x :: xs, s, t => ∃ next, absorbs x s next ∧ Absorbed absorbs xs next t

/-- A loop that takes one piece in each round and ends at a closing bracket. -/
structure Loop (step : σ → Reader (σ ⊕ α)) (piece : Bool → γ → List Char) (isFirst : σ → Bool)
    (absorbs : γ → σ → σ → Prop) (finish : σ → α) (bracket : Bracket) : Prop where
  closes : ∀ s rest,
    step s (bracket.closing :: rest) = .ok (.inr (finish s), bracket.closing :: rest)
  takes : ∀ s x, Decides (step s) (piece (isFirst s) x) fun out ↦
    ∃ next, absorbs x s next ∧ .inl next = out
  continues : ∀ x s next, absorbs x s next → isFirst next = false
  nonempty : ∀ first x, piece first x ≠ []
  comma : ∀ x, (piece false x).head? = some ','

namespace Loop

variable {step : σ → Reader (σ ⊕ α)} {piece : Bool → γ → List Char} {isFirst : σ → Bool}
  {absorbs : γ → σ → σ → Prop} {finish : σ → α} {bracket : Bracket}

/-- Every piece but the first starts with a comma. -/
theorem follows_append (loop : Loop step piece isFirst absorbs finish bracket) (xs : List γ)
    {rest : List Char} (hrest : Follows rest) : Follows (piecesFrom piece false xs ++ rest) := by
  cases xs with
  | nil => exact hrest
  | cons x xs =>
    intro c hc
    rw [piecesFrom, List.append_assoc, List.head?_append, loop.comma x] at hc
    exact .inl (Option.some.inj hc).symm

theorem follows (loop : Loop step piece isFirst absorbs finish bracket) (xs : List γ)
    (rest : List Char) : Follows (piecesFrom piece false xs ++ bracket.closing :: rest) :=
  loop.follows_append xs (follows_closing bracket rest)

/-- No piece is empty, so that the rounds that are granted are enough. -/
theorem length_le (loop : Loop step piece isFirst absorbs finish bracket) (first : Bool)
    (xs : List γ) : xs.length ≤ (piecesFrom piece first xs).length := by
  induction xs generalizing first with
  | nil => exact Nat.zero_le _
  | cons x xs ih =>
    have hpiece := List.length_pos_iff.mpr (loop.nonempty first x)
    have hlater := ih false
    rw [piecesFrom, List.length_append, List.length_cons]
    omega

/-- A loop succeeds exactly if its pieces can be absorbed, by induction over the pieces. -/
theorem repeatFor_eq_ok_iff (loop : Loop step piece isFirst absorbs finish bracket) {xs : List γ}
    {rounds : Nat} (hrounds : xs.length < rounds) {s : σ} {rest left : List Char} {a : α} :
    repeatFor step rounds s (piecesFrom piece (isFirst s) xs ++ bracket.closing :: rest) =
        .ok (a, left) ↔
      (∃ t, Absorbed absorbs xs s t ∧ finish t = a) ∧ left = bracket.closing :: rest := by
  obtain ⟨rounds, rfl⟩ := Nat.exists_eq_add_one.mpr (Nat.zero_lt_of_lt hrounds)
  induction xs generalizing rounds s with
  | nil =>
    rw [piecesFrom, List.nil_append, repeatFor_inr (loop.closes s rest)]
    simp [Absorbed, @eq_comm _ left]
  | cons x xs ih =>
    obtain ⟨rounds, rfl⟩ : ∃ fewer, rounds = fewer + 1 := by
      rw [List.length_cons] at hrounds
      exact Nat.exists_eq_add_one.mpr (by omega)
    have htake := loop.takes s x _ (loop.follows xs rest)
    rw [piecesFrom, List.append_assoc, repeatFor, bind_eq_ok_iff]
    constructor
    · rintro ⟨out, middle, hround, hlater⟩
      obtain ⟨⟨next, hnext, rfl⟩, rfl⟩ := (htake out middle).mp hround
      rw [← loop.continues x s next hnext] at hlater
      obtain ⟨⟨t, ht, hfinish⟩, hleft⟩ := (ih rounds (by simpa using hrounds)).mp hlater
      exact ⟨⟨t, ⟨next, hnext, ht⟩, hfinish⟩, hleft⟩
    · rintro ⟨⟨t, ⟨next, hnext, ht⟩, hfinish⟩, hleft⟩
      refine ⟨.inl next, _, (htake _ _).mpr ⟨⟨next, hnext, rfl⟩, rfl⟩, ?_⟩
      rw [← loop.continues x s next hnext]
      exact (ih rounds (by simpa using hrounds)).mpr ⟨⟨t, ht, hfinish⟩, hleft⟩

/-- The same with the rounds that the length of the text grants. -/
theorem repeatFrom_eq_ok_iff (loop : Loop step piece isFirst absorbs finish bracket) {start : σ}
    (hstart : isFirst start = true) (xs : List γ) (rest : List Char) (a : α) (left : List Char) :
    repeatFrom start step (piecesFrom piece true xs ++ bracket.closing :: rest) = .ok (a, left) ↔
      (∃ t, Absorbed absorbs xs start t ∧ finish t = a) ∧ left = bracket.closing :: rest := by
  have hrounds : xs.length <
      (piecesFrom piece true xs ++ bracket.closing :: rest).length + 2 := by
    have hlength := loop.length_le true xs
    rw [List.length_append]
    omega
  rw [repeatFrom, bind_apply, get_apply, ← hstart]
  rw [← hstart] at hrounds
  exact loop.repeatFor_eq_ok_iff hrounds

end Loop

theorem compact_array_append (items : List Document) (rest : List Char) :
    (Document.array items).compact ++ rest =
      '[' :: (Document.itemsFrom true items ++ ']' :: rest) := by
  rw [Document.compact, Document.compactItems_eq]
  simp

theorem itemsFrom_append (first : Bool) (item : Document) (items : List Document)
    (rest : List Char) :
    Document.itemsFrom first (item :: items) ++ rest =
      separator first ++ (item.compact ++ (Document.itemsFrom false items ++ rest)) := by
  simp [Document.itemsFrom]

/-- Behind an item comes a comma or the closing bracket. -/
theorem follows_itemsFrom (items : List Document) (rest : List Char) :
    Follows (Document.itemsFrom false items ++ ']' :: rest) := by
  cases items with
  | nil => exact follows_cons (.inr (.inl rfl)) rest
  | cons item others => exact follows_cons (.inl rfl) _

/-- A list that has more items is not closed yet. -/
theorem closeList_eq_ok_iff {items : List Document} {rest left : List Char} :
    closeList (Document.itemsFrom false items ++ ']' :: rest) = .ok ((), left) ↔
      items = [] ∧ left = rest := by
  cases items with
  | nil =>
    rw [Document.itemsFrom, List.nil_append, closeList_bracket]
    simp [@eq_comm _ rest]
  | cons item others =>
    rw [itemsFrom_append, separator, if_neg (by decide), closeList, bind_apply,
      List.singleton_append, upcoming_cons (by decide)]
    simp only [bind_apply, advance_apply, List.tail_cons, upcoming_compact]
    simp

/-- A reader of what stands inside a list may leave items over; then the list is refused. -/
theorem decides_enclosed_list {inner : Nat → Reader α} {items : List Document}
    {means : Nat → α → List Document → Prop}
    (h : ∀ budget rest a left,
      inner budget (Document.itemsFrom true items ++ ']' :: rest) = .ok (a, left) ↔
        ∃ more, means budget a more ∧ left = Document.itemsFrom false more ++ ']' :: rest)
    (budget : Nat) :
    Decides (enclosed closeList inner budget) (Document.array items).compact fun a ↦
      ∃ left, budget = left + 1 ∧ means left a [] := by
  intro rest _ a left
  rw [compact_array_append]
  cases budget with
  | zero => simp [enclosed]
  | succ budget =>
    have hinner : ∀ b middle, (fun rest ↦ (inner budget rest).mapError (settledBy closeList))
        (Document.itemsFrom true items ++ ']' :: rest) = .ok (b, middle) ↔
          ∃ more, means budget b more ∧ middle = Document.itemsFrom false more ++ ']' :: rest := by
      intro b middle
      rw [mapError_eq_ok_iff, h]
    rw [enclosed, bind_apply, advance_apply, List.tail_cons]
    simp only [bind_eq_ok_iff, hinner, pure_eq_ok_iff]
    constructor
    · rintro ⟨b, _, ⟨more, hb, rfl⟩, _, _, hclose, rfl, rfl⟩
      obtain ⟨rfl, rfl⟩ := closeList_eq_ok_iff.mp hclose
      exact ⟨⟨budget, rfl, hb⟩, rfl⟩
    · rintro ⟨⟨_, hbudget, ha⟩, rfl⟩
      obtain rfl := Nat.add_right_cancel hbudget
      exact ⟨a, _, ⟨[], ha, rfl⟩, (), left, closeList_eq_ok_iff.mpr ⟨rfl, rfl⟩, rfl, rfl⟩

/-- Whether there is another item shows in the next character, behind a comma if there were items.
-/
theorem anotherItem_itemsFrom (first : Bool) (items : List Document) (rest : List Char) :
    anotherItem first (Document.itemsFrom first items ++ ']' :: rest) =
      match items with
      | [] => .ok (false, ']' :: rest)
      | item :: items =>
        .ok (true, item.compact ++ (Document.itemsFrom false items ++ ']' :: rest)) := by
  cases items with
  | nil => exact anotherItem_close first rest
  | cons item items =>
    rw [itemsFrom_append]
    exact anotherItem_value first (item.startsValue_compact.append _)

variable {item : Reader α} {means : Document → α → Prop}

theorem itemsFrom_eq_piecesFrom (first : Bool) (items : List Document) :
    Document.itemsFrom first items =
      piecesFrom (fun first d ↦ separator first ++ Document.compact d) first items := by
  induction items generalizing first with
  | nil => rfl
  | cons d items ih => rw [Document.itemsFrom, piecesFrom, ih]

/-- One round takes one item. -/
theorem loop_itemStep (h : ∀ d : Document, Decides item d.compact (means d)) :
    Loop (itemStep item) (fun first d ↦ separator first ++ Document.compact d) List.isEmpty
      (fun d done next ↦ ∃ a, means d a ∧ a :: done = next) List.reverse .list where
  closes done rest := itemStep_close item done rest
  takes done d := by
    intro rest hrest out left
    have hmore := anotherItem_value done.isEmpty (d.startsValue_compact.append rest)
    have hread := (h d).map (fun a ↦ (.inl (a :: done) : List α ⊕ List α)) rest hrest out left
    rw [itemStep, bind_apply, List.append_assoc, hmore]
    simp only [↓reduceIte, hread]
    constructor
    · rintro ⟨⟨a, ha, rfl⟩, rfl⟩
      exact ⟨⟨a :: done, ⟨a, ha, rfl⟩, rfl⟩, rfl⟩
    · rintro ⟨⟨_, ⟨a, ha, rfl⟩, rfl⟩, rfl⟩
      exact ⟨⟨a, ha, rfl⟩, rfl⟩
  continues := by
    rintro d done next ⟨a, -, rfl⟩
    rfl
  nonempty first d := by
    obtain ⟨text, htext⟩ := d.exists_compact_eq
    simp [htext]
  comma d := rfl

/-- Items are collected in reverse. -/
theorem absorbed_items_iff {items : List Document} {done values : List α} :
    Absorbed (fun d done next ↦ ∃ a, means d a ∧ a :: done = next) items done values ↔
      ∃ added, List.Forall₂ means items added ∧ added.reverse ++ done = values := by
  induction items generalizing done with
  | nil => simp [Absorbed, List.forall₂_nil_left_iff]
  | cons d items ih =>
    simp only [Absorbed, ih]
    constructor
    · rintro ⟨_, ⟨a, ha, rfl⟩, added, hadded, rfl⟩
      exact ⟨a :: added, .cons ha hadded, by simp⟩
    · rintro ⟨_, hadded, rfl⟩
      cases hadded with
      | cons ha hadded => exact ⟨_, ⟨_, ha, rfl⟩, _, hadded, by simp⟩

/-- A list of things that the items stand for one by one. -/
theorem decides_list (h : ∀ d : Document, Decides item d.compact (means d)) (items' : List Document)
    (budget : Nat) :
    Decides (enclosed closeList (fun _ ↦ items item) budget) (Document.array items').compact
      fun values ↦ ∃ left, budget = left + 1 ∧ List.Forall₂ means items' values := by
  have hinner : ∀ (budget : Nat) rest values left,
      items item (Document.itemsFrom true items' ++ ']' :: rest) = .ok (values, left) ↔
        ∃ more, (List.Forall₂ means items' values ∧ more = []) ∧
          left = Document.itemsFrom false more ++ ']' :: rest := by
    intro budget rest values left
    rw [items_eq, itemsFrom_eq_piecesFrom]
    refine ((loop_itemStep h).repeatFrom_eq_ok_iff rfl items' rest values left).trans ?_
    simp only [absorbed_items_iff, List.append_nil]
    constructor
    · rintro ⟨⟨_, ⟨added, hadded, rfl⟩, rfl⟩, rfl⟩
      exact ⟨[], ⟨by simpa using hadded, rfl⟩, rfl⟩
    · rintro ⟨_, ⟨hvalues, rfl⟩, rfl⟩
      exact ⟨⟨_, ⟨values, hvalues, rfl⟩, by simp⟩, rfl⟩
  apply (decides_enclosed_list hinner budget).iff
  simp

theorem place_value (title : String) (count position : Nat) (read : Reader α) {text : List Char}
    (h : StartsValue text) :
    place title count position read (separator (position == 0) ++ text) = read text := by
  rw [place, bind_apply, anotherItem_value _ h]
  rfl

/-- An item at a place has to be there. -/
theorem place_eq_ok_iff {title : String} {count position : Nat} {read : Reader α}
    (h : ∀ d : Document, Decides read d.compact (means d)) {items : List Document} {a : α}
    {rest left : List Char} :
    place title count position read
        (Document.itemsFrom (position == 0) items ++ ']' :: rest) = .ok (a, left) ↔
      ∃ d more, items = d :: more ∧ means d a ∧
        left = Document.itemsFrom false more ++ ']' :: rest := by
  rw [place, bind_apply, anotherItem_itemsFrom]
  cases items with
  | nil => simp
  | cons d more =>
    have hread := h d _ (follows_itemsFrom more rest) a left
    simp only [↓reduceIte, hread]
    constructor
    · rintro ⟨ha, hleft⟩
      exact ⟨d, more, rfl, ha, hleft⟩
    · rintro ⟨_, _, hitems, ha, hleft⟩
      obtain ⟨rfl, rfl⟩ := List.cons.inj hitems
      exact ⟨ha, hleft⟩

/-! ## Members of objects -/

theorem closeObject_eq_ok_iff {rest left : List Char} :
    closeObject ('\x7d' :: rest) = .ok ((), left) ↔ left = rest := by
  rw [closeObject_brace]
  simp [eq_comm]

/-- Unlike a list, an object has no members left when it is closed. -/
theorem decides_enclosed_object {inner : Nat → Reader α} {members : List (String × Document)}
    {means : Nat → α → Prop}
    (h : ∀ budget rest a left,
      inner budget (Document.membersFrom true members ++ '\x7d' :: rest) = .ok (a, left) ↔
        means budget a ∧ left = '\x7d' :: rest)
    (budget : Nat) :
    Decides (enclosed closeObject inner budget) (Document.object members).compact fun a ↦
      ∃ left, budget = left + 1 ∧ means left a := by
  intro rest _ a left
  rw [compact_object_append]
  cases budget with
  | zero => simp [enclosed]
  | succ budget =>
    have hinner : ∀ b middle, (fun rest ↦ (inner budget rest).mapError (settledBy closeObject))
        (Document.membersFrom true members ++ '\x7d' :: rest) = .ok (b, middle) ↔
          means budget b ∧ middle = '\x7d' :: rest := by
      intro b middle
      rw [mapError_eq_ok_iff, h]
    rw [enclosed, bind_apply, advance_apply, List.tail_cons]
    simp only [bind_eq_ok_iff, hinner, pure_eq_ok_iff]
    constructor
    · rintro ⟨b, _, ⟨hb, rfl⟩, _, _, hclose, rfl, rfl⟩
      exact ⟨⟨budget, rfl, hb⟩, closeObject_eq_ok_iff.mp hclose⟩
    · rintro ⟨⟨_, hbudget, ha⟩, rfl⟩
      obtain rfl := Nat.add_right_cancel hbudget
      exact ⟨a, _, ⟨ha, rfl⟩, (), left, closeObject_eq_ok_iff.mpr rfl, rfl, rfl⟩

/-- The text of a member, with the comma before it. -/
def memberChars (first : Bool) (member : String × Document) : List Char :=
  separator first ++ stringChars member.1 ++ ':' :: member.2.compact

theorem membersFrom_eq_piecesFrom (first : Bool) (members : List (String × Document)) :
    Document.membersFrom first members = piecesFrom memberChars first members := by
  induction members generalizing first with
  | nil => rfl
  | cons member members ih =>
    simp only [Document.membersFrom, piecesFrom, memberChars, ih, List.append_assoc,
      List.cons_append]

theorem memberChars_ne_nil (first : Bool) (member : String × Document) :
    memberChars first member ≠ [] := by
  simp [memberChars, stringChars]

/-- What a member makes of the draft of a record, if `member` says which keys it knows. -/
structure Fills (member : String → σ → Option (Reader σ))
    (absorbs : String × Document → σ → σ → Prop) : Prop where
  known : ∀ key draft read, member key draft = some read → ∀ d : Document,
    Decides read (':' :: d.compact) (absorbs (key, d) draft)
  unknown : ∀ key draft, member key draft = none → ∀ d next,
    absorbs (key, d) draft next ↔ next = draft

/-- One round takes one member, whether its key is known or not. -/
theorem loop_memberStep {member : String → σ → Option (Reader σ)}
    {absorbs : String × Document → σ → σ → Prop} (h : Fills member absorbs) :
    Loop (memberStep member) memberChars Prod.fst
      (fun entry state next ↦ ∃ draft, absorbs entry state.2 draft ∧ (false, draft) = next)
      Prod.snd .object where
  closes state rest := memberStep_close state.1 rest
  takes state entry := by
    obtain ⟨first, draft⟩ := state
    obtain ⟨key, d⟩ := entry
    intro rest hrest out left
    have htext : memberChars first (key, d) ++ rest =
        separator first ++ stringChars key ++ (':' :: (d.compact ++ rest)) := by
      simp [memberChars]
    simp only [memberStep]
    rw [bind_apply, htext, anotherKey_string]
    dsimp only
    cases hmember : member key draft with
    | some read =>
      have hread := (h.known key draft read hmember d).map
        (fun next ↦ (.inl (false, next) : (Bool × σ) ⊕ σ)) rest hrest out left
      rw [List.cons_append] at hread
      rw [hread]
      constructor
      · rintro ⟨⟨next, hnext, rfl⟩, rfl⟩
        exact ⟨⟨_, ⟨next, hnext, rfl⟩, rfl⟩, rfl⟩
      · rintro ⟨⟨_, ⟨next, hnext, rfl⟩, rfl⟩, rfl⟩
        exact ⟨⟨next, hnext, rfl⟩, rfl⟩
    | none =>
      have hskip := skipValue_compact d hrest
      simp only [bind_apply, colon_cons, hskip, pure_eq_ok_iff,
        h.unknown key draft hmember d]
      constructor
      · rintro ⟨rfl, rfl⟩
        exact ⟨⟨_, ⟨draft, rfl, rfl⟩, rfl⟩, rfl⟩
      · rintro ⟨⟨_, ⟨_, rfl, rfl⟩, rfl⟩, rfl⟩
        exact ⟨rfl, rfl⟩
  continues := by
    rintro entry state next ⟨draft, -, rfl⟩
    rfl
  nonempty := memberChars_ne_nil
  comma _ := rfl

/-- The mark of the first round does not matter for what the members make of the rest of the
state. -/
theorem exists_absorbed_flagged_iff {absorbs : γ → σ → σ → Prop} {xs : List γ} {first : Bool}
    {s t : σ} :
    (∃ state, Absorbed (fun x state next ↦ ∃ s, absorbs x state.2 s ∧ (false, s) = next) xs
        (first, s) state ∧ state.2 = t) ↔ Absorbed absorbs xs s t := by
  induction xs generalizing first s with
  | nil => simp [Absorbed]
  | cons x xs ih =>
    simp only [Absorbed, ← @ih false]
    constructor
    · rintro ⟨state, ⟨_, ⟨next, hnext, rfl⟩, hlater⟩, rfl⟩
      exact ⟨next, hnext, state, hlater, rfl⟩
    · rintro ⟨next, hnext, state, hlater, rfl⟩
      exact ⟨state, ⟨_, ⟨next, hnext, rfl⟩, hlater⟩, rfl⟩

/-- Members fill a draft one after the other. -/
theorem members_eq_ok_iff {member : String → σ → Option (Reader σ)}
    {absorbs : String × Document → σ → σ → Prop} (h : Fills member absorbs) (start : σ)
    (entries : List (String × Document)) (rest : List Char) (draft : σ) (left : List Char) :
    members start member (Document.membersFrom true entries ++ '\x7d' :: rest) = .ok (draft, left) ↔
      Absorbed absorbs entries start draft ∧ left = '\x7d' :: rest := by
  rw [members_eq, membersFrom_eq_piecesFrom, ← @exists_absorbed_flagged_iff _ _ _ entries true]
  exact (loop_memberStep h).repeatFrom_eq_ok_iff rfl entries rest draft left

/-- A field can be filled once. -/
theorem decides_once {key : String} {earlier : Option α} {read : Reader α} {d : Document}
    {means : α → Prop} (h : Decides read d.compact means) :
    Decides (once key earlier read) (':' :: d.compact) fun a ↦ earlier = none ∧ means a := by
  intro rest hrest a left
  cases earlier with
  | some value => simp [once]
  | none =>
    rw [List.cons_append, once_none, h rest hrest a left]
    simp

/-- What the values under a key make of a field: the first fills it, and a further one is one too
many. -/
def Filled (means : Document → β → Prop) : List Document → Option β → Option β → Prop
  | [], before, after => before = after
  | d :: ds, before, after => before = none ∧ ∃ b, means d b ∧ Filled means ds (some b) after

variable {read : Document → β → Prop}

theorem filled_some_iff {ds : List Document} {b : β} {after : Option β} :
    Filled read ds (some b) after ↔ ds = [] ∧ some b = after := by
  cases ds <;> simp [Filled]

/-- A field is filled by exactly one member. -/
theorem filled_none_some_iff {ds : List Document} {b : β} :
    Filled read ds none (some b) ↔ ∃ d, ds = [d] ∧ read d b := by
  cases ds with
  | nil => simp [Filled]
  | cons d ds =>
    simp only [Filled, filled_some_iff, Option.some.injEq, true_and]
    constructor
    · rintro ⟨_, hb, rfl, rfl⟩
      exact ⟨d, rfl, hb⟩
    · rintro ⟨_, hds, hb⟩
      obtain ⟨rfl, rfl⟩ := List.cons.inj hds
      exact ⟨b, hb, rfl, rfl⟩

theorem filled_none_none_iff {ds : List Document} : Filled read ds none none ↔ ds = [] := by
  cases ds with
  | nil => simp [Filled]
  | cons d ds => simp [Filled, filled_some_iff]

/-- A record is an object or a list, and each has its own meaning. -/
theorem decides_record {title : String} {named positional : Nat → Reader α}
    {namedMeans : List (String × Document) → Nat → α → Prop}
    {positionalMeans : List Document → Nat → α → List Document → Prop}
    (hnamed : ∀ members budget rest a left,
      named budget (Document.membersFrom true members ++ '\x7d' :: rest) = .ok (a, left) ↔
        namedMeans members budget a ∧ left = '\x7d' :: rest)
    (hpositional : ∀ items budget rest a left,
      positional budget (Document.itemsFrom true items ++ ']' :: rest) = .ok (a, left) ↔
        ∃ more, positionalMeans items budget a more ∧
          left = Document.itemsFrom false more ++ ']' :: rest)
    (d : Document) (budget : Nat) :
    Decides (record title named positional budget) d.compact fun a ↦
      ∃ left, budget = left + 1 ∧
        ((∃ members, d = .object members ∧ namedMeans members left a) ∨
          ∃ items, d = .array items ∧ positionalMeans items left a []) := by
  by_cases hbrace : d.initial = '\x7b'
  · obtain ⟨members, rfl⟩ := Document.initial_eq_brace_iff.mp hbrace
    have hobject : Decides (record title named positional budget)
        (Document.object members).compact _ := fun rest hrest a left ↦ by
      rw [record, bind_apply, demand_compact]
      exact decides_enclosed_object (hnamed members) budget rest hrest a left
    apply hobject.iff
    simp
  · by_cases hbracket : d.initial = '['
    · obtain ⟨items, rfl⟩ := Document.initial_eq_bracket_iff.mp hbracket
      have hlist : Decides (record title named positional budget)
          (Document.array items).compact _ := fun rest hrest a left ↦ by
        rw [record, bind_apply, demand_compact]
        exact decides_enclosed_list (hpositional items) budget rest hrest a left
      apply hlist.iff
      simp
    · refine Decides.iff (decides_none fun rest pair ↦ ?_) fun a ↦ ?_
      · rw [record, bind_apply, demand_compact]
        simp only
        exact (gives_wrongType _).ne_ok _ pair
      · rw [Document.initial_eq_brace_iff] at hbrace
        rw [Document.initial_eq_bracket_iff] at hbracket
        constructor
        · exact False.elim
        · rintro ⟨-, -, ⟨members, rfl, -⟩ | ⟨items, rfl, -⟩⟩
          · exact hbrace ⟨members, rfl⟩
          · exact hbracket ⟨items, rfl⟩

end Reader

theorem valuesAt_cons_self (key : String) (d : Document) (members : List (String × Document)) :
    valuesAt key ((key, d) :: members) = d :: valuesAt key members := by
  simp [valuesAt]

theorem valuesAt_cons_of_ne {key other : String} (h : other ≠ key) (d : Document)
    (members : List (String × Document)) :
    valuesAt key ((other, d) :: members) = valuesAt key members := by
  simp [valuesAt, h]

end BLTree.Json

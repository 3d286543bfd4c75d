import BLTree.Proofs.Runs
import Mathlib.Algebra.BigOperators.Group.Finset.Basic
import Mathlib.Algebra.Order.Group.Multiset
import Mathlib.Tactic.Abel

/-!
# The labels of statements, contexts and programs

What a statement holds is counted as a multiset of labels with their payloads. Blocks only hold
other statements together and are left out, so that an empty block counts for nothing. A kernel
operation moves labels between its receiver, its arguments and its results; its account says what it
makes and what it does away with.
-/

namespace BLTree

/-- The label of a node as far as it counts. -/
def Label.counted (l : Label) : Multiset Label := if l.kind = .block then 0 else {l}

namespace Tree

mutual

def labels : Tree Label → Multiset Label
  | empty => 0
  | node l children => l.counted + labelsAmong children

def labelsAmong : List (Tree Label) → Multiset Label
  | [] => 0
  | t :: ts => labels t + labelsAmong ts

end

theorem labelsAmong_eq_sum (ts : List (Tree Label)) : labelsAmong ts = (ts.map labels).sum := by
  induction ts with
  | nil => rfl
  | cons t ts ih => rw [labelsAmong, ih, List.map_cons, List.sum_cons]

/-- The order of the children does not matter for their labels. -/
theorem labelsAmong_perm {ts us : List (Tree Label)} (h : ts.Perm us) :
    labelsAmong ts = labelsAmong us := by
  rw [labelsAmong_eq_sum, labelsAmong_eq_sum]
  exact (h.map labels).sum_eq

/-- A child that is inserted brings its own labels. -/
theorem labelsAmong_insertIdx {position : Nat} {ts : List (Tree Label)} (t : Tree Label)
    (h : position ≤ ts.length) :
    labelsAmong (ts.insertIdx position t) = t.labels + labelsAmong ts :=
  labelsAmong_perm (List.perm_insertIdx t ts h)

/-- A child that is erased takes its labels away. -/
theorem labelsAmong_eraseIdx {position : Nat} {ts : List (Tree Label)}
    (h : position < ts.length) :
    ts[position].labels + labelsAmong (ts.eraseIdx position) = labelsAmong ts :=
  labelsAmong_perm (List.getElem_cons_eraseIdx_perm h)

end Tree

namespace Statement

def labels (s : Statement) : Multiset Label := s.tree.labels

/-- The label of the root, as far as it counts. -/
def rootLabel (s : Statement) : Multiset Label := s.tree.label?.elim 0 Label.counted

/-- A block counts for nothing, every other node for its label. -/
theorem labels_node (l : Label) (children : List (Tree Label)) :
    labels ⟨.node l children⟩ = l.counted + Tree.labelsAmong children := by
  rw [labels, Tree.labels]

@[simp]
theorem labels_emptyBlock : emptyBlock.labels = 0 := by
  simp [emptyBlock, labels_node, Label.counted, Label.kind, Tree.labelsAmong]

theorem labels_block (children : List (Tree Label)) :
    labels ⟨.node .block children⟩ = Tree.labelsAmong children := by
  simp [labels_node, Label.counted, Label.kind]

theorem labels_call (name : Identifier) : (call name).labels = {.call name} := by
  simp [call, labels_node, Label.counted, Label.kind, Tree.labelsAmong]

end Statement

namespace Context

def labels (c : Context) : Multiset Label := (c.entries.map fun entry ↦ entry.2.labels).sum

/-- What stands under a name, as far as anything does. -/
def labelsAt (c : Context) (name : String) : Multiset Label :=
  (c.get? name).elim 0 Statement.labels

@[simp]
theorem labels_empty : empty.labels = 0 := rfl

theorem text_ne_of_lt {a b : Identifier} (h : a < b) : b.text ≠ a.text := by
  intro heq
  rw [Identifier.ext heq] at h
  exact Identifier.lt_irrefl a h

/-- No entry behind a name has that name, since the entries are in order. -/
theorem filter_text_eq_self {name : Identifier} {entries : List (Identifier × Statement)}
    (h : ∀ entry ∈ entries, name < entry.1) :
    entries.filter (fun entry ↦ entry.1.text != name.text) = entries := by
  rw [List.filter_eq_self]
  intro entry hentry
  exact bne_iff_ne.mpr (text_ne_of_lt (h entry hentry))

/-- What is erased had its labels in the context. -/
theorem labels_erase (c : Context) (name : String) :
    (c.erase name).labels + c.labelsAt name = c.labels := by
  obtain ⟨entries, hsorted⟩ := c
  simp only [labels, labelsAt, erase, get?]
  induction entries with
  | nil => rfl
  | cons entry others ih =>
    obtain ⟨hentry, hothers⟩ := List.pairwise_cons.mp hsorted
    by_cases hname : entry.1.text = name
    · subst hname
      have hkept := filter_text_eq_self hentry
      simp [hkept, add_comm]
    · have hlater := ih hothers
      simp [hname, ← hlater, add_assoc]

/-- An insertion puts a procedure in the place of what stood under its name. -/
theorem perm_insert_erase (c : Context) (name : Identifier) (body : Statement) :
    (c.insert name body).entries.Perm ((name, body) :: (c.erase name.text).entries) := by
  obtain ⟨entries, hsorted⟩ := c
  simp only [insert, erase]
  induction entries with
  | nil => exact .refl _
  | cons entry others ih =>
    obtain ⟨hentry, hothers⟩ := List.pairwise_cons.mp hsorted
    unfold insertEntry
    split
    · rename_i hlt
      have hall : ∀ other ∈ entry :: others, name < other.1 := by
        intro other hother
        rcases List.mem_cons.mp hother with rfl | hother
        · exact hlt
        · exact Identifier.lt_trans hlt (hentry other hother)
      rw [filter_text_eq_self hall]
    · split
      · rename_i heq
        subst heq
        rw [List.filter_cons_of_neg (by simp), filter_text_eq_self hentry]
      · rename_i hne
        have htext : entry.1.text ≠ name.text := fun h ↦ hne (Identifier.ext h).symm
        rw [List.filter_cons_of_pos (by simp [htext])]
        exact ((ih hothers).cons entry).trans (.swap _ _ _)

/-- A body that is inserted takes the place of the one under the same name. -/
theorem labels_insert (c : Context) (name : Identifier) (body : Statement) :
    (c.insert name body).labels + c.labelsAt name.text = c.labels + body.labels := by
  let count : Identifier × Statement → Multiset Label := fun entry ↦ entry.2.labels
  have hinsert : (c.insert name body).labels = body.labels + (c.erase name.text).labels :=
    ((perm_insert_erase c name body).map count).sum_eq
  rw [hinsert, ← c.labels_erase name.text]
  abel

end Context

namespace Program

def labels (p : Program) : Multiset Label := p.context.labels + p.body.labels

@[simp]
theorem labels_new : new.labels = 0 := by
  simp [labels, new]

end Program

/-! ## Registers -/

namespace Registers

variable {α : Type}

theorem mem_setEntry {name : String} {a : α} {entries : List (String × α)} {entry : String × α}
    (h : entry ∈ setEntry name a entries) : entry = (name, a) ∨ entry ∈ entries := by
  induction entries with
  | nil => simpa [setEntry] using h
  | cons head others ih =>
    unfold setEntry at h
    split at h
    · exact (List.mem_cons.mp h).imp_right (List.mem_cons_of_mem _)
    · rcases List.mem_cons.mp h with rfl | h
      · exact .inr List.mem_cons_self
      · exact (ih h).imp_right (List.mem_cons_of_mem _)

variable [Inhabited α]

/-- What all registers hold together. One that was never written holds the default value, which has
to count for nothing. -/
def total (count : α → Multiset Label) (r : Registers α) : Multiset Label :=
  ∑ name ∈ (r.entries.map Prod.fst).toFinset, count (r.get name)

/-- The total can be taken over any names that include those in use. -/
theorem total_eq_sum {count : α → Multiset Label} (hdefault : count default = 0)
    {r : Registers α} {names : Finset String} (h : ∀ entry ∈ r.entries, entry.1 ∈ names) :
    total count r = ∑ name ∈ names, count (r.get name) := by
  apply Finset.sum_subset
  · intro name hname
    obtain ⟨entry, hentry, rfl⟩ := List.mem_map.mp (List.mem_toFinset.mp hname)
    exact h entry hentry
  · intro name _ hname
    have hlookup : r.entries.lookup name = none := by
      rw [List.lookup_eq_none_iff]
      intro entry hentry
      rw [bne_iff_ne]
      intro heq
      apply hname
      rw [heq]
      exact List.mem_toFinset.mpr (List.mem_map_of_mem hentry)
    rw [get, hlookup, Option.getD_none, hdefault]

/-- Storing a value does away with exactly what the register held. -/
theorem total_set {count : α → Multiset Label} (hdefault : count default = 0) (r : Registers α)
    (name : String) (a : α) :
    total count (r.set name a) + count (r.get name) = total count r + count a := by
  let names := insert name (r.entries.map Prod.fst).toFinset
  have hbefore : ∀ entry ∈ r.entries, entry.1 ∈ names := by
    intro entry hentry
    exact Finset.mem_insert_of_mem (List.mem_toFinset.mpr (List.mem_map_of_mem hentry))
  have hafter : ∀ entry ∈ (r.set name a).entries, entry.1 ∈ names := by
    intro entry hentry
    rcases mem_setEntry hentry with rfl | hentry
    · exact Finset.mem_insert_self _ _
    · exact hbefore entry hentry
  have hname : name ∈ names := Finset.mem_insert_self _ _
  have hothers : ∑ other ∈ names.erase name, count ((r.set name a).get other) =
      ∑ other ∈ names.erase name, count (r.get other) := by
    apply Finset.sum_congr rfl
    intro other hother
    rw [get_set, if_neg (Finset.ne_of_mem_erase hother)]
  rw [total_eq_sum hdefault hafter, total_eq_sum hdefault hbefore,
    ← Finset.add_sum_erase names _ hname, ← Finset.add_sum_erase names _ hname, hothers, get_set,
    if_pos rfl]
  abel

end Registers

/-! ## Accounts of edits -/

/-- What an edit does with labels. Some it is given by value, some it makes; some it does away with,
and some it carries off with its result. A violated contract costs what was given and, of what the
edit found in place, the `stray` ones. -/
structure Account (α : Type) where
  given : Multiset Label := 0
  made : Multiset Label := 0
  lost : Multiset Label := 0
  stray : Multiset Label := 0
  carried : α → Multiset Label := fun _ ↦ 0

/-- The account is right for the edit of `s`. -/
def Balances {σ α : Type} (count : σ → Multiset Label) (e : Edit σ α) (s : σ)
    (account : Account α) : Prop :=
  match e s with
  | .ok a t => count t + account.carried a + account.lost = count s + account.given + account.made
  | .error _ t => count t + account.stray = count s

section

variable {σ α : Type} {count : σ → Multiset Label} {e : Edit σ α} {s t : σ} {account : Account α}

/-- An edit that succeeds is balanced if its account is. -/
theorem balances_of_ok {a : α} (hrun : e s = .ok a t)
    (h : count t + account.carried a + account.lost = count s + account.given + account.made) :
    Balances count e s account := by
  rw [Balances, hrun]
  exact h

/-- An edit that stops is balanced if at most its stray labels are missing. -/
theorem balances_of_error {v : Violation} (hrun : e s = .error v t)
    (h : count t + account.stray = count s) : Balances count e s account := by
  rw [Balances, hrun]
  exact h

/-- An edit of a part balances in the whole if writing a part back exchanges its labels. -/
theorem Balances.within {τ : Type} {part : τ → Multiset Label} {f : Edit τ α} {view : σ → τ}
    {put : τ → σ → σ} (h : Balances part f (view s) account)
    (hput : ∀ t, count (put t s) + part (view s) = count s + part t) :
    Balances count (Edit.within view put f) s account := by
  cases hrun : f (view s) with
  | ok a t =>
    rw [Balances, hrun] at h
    have hwithin : Edit.within view put f s = .ok a (put t s) := by
      rw [Edit.within_apply, hrun]
    apply balances_of_ok hwithin
    apply add_right_cancel (b := part (view s))
    calc count (put t s) + account.carried a + account.lost + part (view s)
      _ = (count (put t s) + part (view s)) + (account.carried a + account.lost) := by abel
      _ = count s + (part t + account.carried a + account.lost) := by
        rw [hput]
        abel
      _ = count s + account.given + account.made + part (view s) := by
        rw [h]
        abel
  | error v t =>
    rw [Balances, hrun] at h
    have hwithin : Edit.within view put f s = .error v (put t s) := by
      rw [Edit.within_apply, hrun]
    apply balances_of_error hwithin
    apply add_right_cancel (b := part (view s))
    calc count (put t s) + account.stray + part (view s)
      _ = (count (put t s) + part (view s)) + account.stray := by abel
      _ = count s + (part t + account.stray) := by
        rw [hput]
        abel
      _ = count s + part (view s) := by rw [h]

/-- What an edit carries off is stored by a later one that cannot stop. -/
theorem Balances.bind_ok {β : Type} {f : α → Edit σ β} {lost : Multiset Label}
    (h : Balances count e s account)
    (hf : ∀ a t, e s = .ok a t → ∃ b u, f a t = .ok b u ∧
      count u + lost = count t + account.carried a) :
    Balances count (e >>= f) s
      { given := account.given, made := account.made, lost := account.lost + lost,
        stray := account.stray } := by
  cases hrun : e s with
  | ok a t =>
    rw [Balances, hrun] at h
    obtain ⟨b, u, hlater, hstored⟩ := hf a t hrun
    have hbind : (e >>= f) s = .ok b u := by rw [Edit.bind_apply, hrun, ← hlater]
    apply balances_of_ok hbind
    calc count u + 0 + (account.lost + lost)
      _ = (count u + lost) + account.lost := by abel
      _ = count s + account.given + account.made := by rw [hstored, h]
  | error v t =>
    rw [Balances, hrun] at h
    have hbind : (e >>= f) s = .error v t := by rw [Edit.bind_apply, hrun]
    exact balances_of_error hbind h

end

namespace Statement

variable {s member body thenBody elseBody : Statement}

/-- The labels of the member go over to the block. -/
theorem balances_addToBlock (hs : s.Sound) (hmember : member.Sound) (position : Nat) :
    Balances labels (addToBlock position member) s { given := member.labels } := by
  obtain ⟨label, children, rfl⟩ := hs.exists_node
  obtain ⟨memberLabel, memberChildren, rfl⟩ := hmember.exists_node
  have hrun := @addToBlock_node label memberLabel children memberChildren position
  split_ifs at hrun with hkind hposition hblock
  · exact balances_of_error hrun (add_zero _)
  · apply balances_of_ok hrun
    simp only [labels, Tree.labels, Tree.labelsAmong_insertIdx _ hposition]
    abel
  · exact balances_of_error hrun (add_zero _)
  · exact balances_of_error hrun (add_zero _)

/-- The member that is removed carries its labels away. -/
theorem balances_removeFromBlock (hs : s.Sound) (position : Nat) :
    Balances labels (removeFromBlock position) s { carried := labels } := by
  obtain ⟨label, children, rfl⟩ := hs.exists_node
  have hrun := @removeFromBlock_node label children position
  split_ifs at hrun with hkind hposition
  · apply balances_of_ok hrun
    simp only [labels, Tree.labels, ← Tree.labelsAmong_eraseIdx hposition]
    abel
  · exact balances_of_error hrun (add_zero _)
  · exact balances_of_error hrun (add_zero _)

theorem labels_of_removeFromBlock {t : Statement} (hs : s.Sound) {position : Nat}
    (h : removeFromBlock position s = .ok member t) :
    t.labels = Tree.labelsAmong (s.tree.children.eraseIdx position) := by
  obtain ⟨label, children, rfl⟩ := hs.exists_node
  rw [removeFromBlock_node] at h
  split_ifs at h with hkind hposition
  obtain ⟨-, rfl⟩ := EStateM.Result.ok.inj h
  rw [eq_block_of_kind hkind, labels_block]
  rfl

/-- A block holds what the statements hold that it was made of. -/
theorem labels_of_block {members : List Statement} (hmembers : ∀ member ∈ members, member.Sound)
    (h : block members = .ok s) : s.labels = (members.map labels).sum := by
  rw [block_eq hmembers] at h
  split_ifs at h
  rw [← Except.ok.inj h, labels_block, Tree.labelsAmong_eq_sum, List.map_map]
  rfl

/-- The edit makes the node of a label and some children, or leaves its receiver alone. -/
def Assembles (e : Edit Statement Unit) (s : Statement) (l : Label)
    (children : List (Tree Label)) : Prop :=
  match e s with
  | .ok _ t => t = ⟨.node l children⟩
  | .error _ t => t = s

/-- The body becomes the only child of the new statement. -/
theorem assembles_assembleSingle (hbody : body.Sound) (construct : Single) (guard : Condition) :
    Assembles (assembleSingle construct guard body) s (construct.label guard) [body.tree] := by
  obtain ⟨label, children, rfl⟩ := hbody.exists_node
  rw [Assembles, assembleSingle_node]
  split_ifs <;> rfl

theorem assembles_assembleIfElse (hthen : thenBody.Sound) (helse : elseBody.Sound)
    (guard : Condition) :
    Assembles (assembleIfElse guard thenBody elseBody) s (.ifElse guard)
      [thenBody.tree, elseBody.tree] := by
  obtain ⟨thenLabel, thenChildren, rfl⟩ := hthen.exists_node
  obtain ⟨elseLabel, elseChildren, rfl⟩ := helse.exists_node
  rw [Assembles, assembleIfElse_node]
  split_ifs <;> rfl

/-- A construct is assembled from its new label and what its bodies hold, at the cost of what the
receiver held. -/
theorem Assembles.balances {e : Edit Statement Unit} {l : Label} {children : List (Tree Label)}
    (h : Assembles e s l children) (hl : l.kind ≠ .block) :
    Balances labels e s
      { given := Tree.labelsAmong children, made := {l}, lost := s.labels } := by
  cases hrun : e s with
  | ok a t =>
    rw [Assembles, hrun] at h
    have hlabels : t.labels = {l} + Tree.labelsAmong children := by
      rw [h, labels_node, Label.counted, if_neg hl]
    apply balances_of_ok hrun
    simp only [hlabels]
    abel
  | error v t =>
    rw [Assembles, hrun] at h
    apply balances_of_error hrun
    rw [h, add_zero]

/-- The edit gives the parts of its receiver and leaves an empty block, or leaves it alone. -/
def Disassembles {α : Type} (e : Edit Statement α) (s : Statement)
    (parts : α → Label × List (Tree Label)) : Prop :=
  match e s with
  | .ok a t => s = ⟨.node (parts a).1 (parts a).2⟩ ∧ t = emptyBlock
  | .error _ t => t = s

/-- What the parts are assembled to is what the receiver was. -/
theorem TakesApart.disassembles {α : Type} {kind : Kind} {refusal : Violation} {fit : α → Prop}
    {whole : α → Statement} {disassemble : Edit Statement α}
    {parts : α → Label × List (Tree Label)} (h : TakesApart kind refusal fit whole disassemble)
    (hparts : ∀ a, whole a = ⟨.node (parts a).1 (parts a).2⟩) (hs : s.Sound) :
    Disassembles disassemble s parts := by
  rcases h.outcome hs with ⟨-, a, -, hwhole, hrun⟩ | ⟨-, hrun⟩
  · rw [Disassembles, hrun]
    exact ⟨hwhole.trans (hparts a), rfl⟩
  · rw [Disassembles, hrun]

theorem disassembles_single (hs : s.Sound) (construct : Single) :
    Disassembles (disassembleSingle construct) s fun (guard, body) ↦
      (construct.label guard, [body.tree]) :=
  (takesApart_single construct).disassembles (fun _ ↦ rfl) hs

theorem disassembles_ifElse (hs : s.Sound) :
    Disassembles disassembleIfElse s fun (guard, thenBody, elseBody) ↦
      (.ifElse guard, [thenBody.tree, elseBody.tree]) :=
  takesApart_ifElse.disassembles (fun _ ↦ rfl) hs

theorem disassembles_call (hs : s.Sound) :
    Disassembles disassembleCall s fun name ↦ (.call name, []) :=
  takesApart_call.disassembles (fun _ ↦ rfl) hs

/-- A construct is taken apart into what its bodies hold, at the cost of the label at its root. -/
theorem Disassembles.balances {α : Type} {e : Edit Statement α}
    {parts : α → Label × List (Tree Label)} (h : Disassembles e s parts) :
    Balances labels e s
      { lost := s.rootLabel, carried := fun a ↦ Tree.labelsAmong (parts a).2 } := by
  cases hrun : e s with
  | ok a t =>
    rw [Disassembles, hrun] at h
    have hroot : s.rootLabel = (parts a).1.counted := by
      rw [h.1]
      rfl
    have hlabels : s.labels = (parts a).1.counted + Tree.labelsAmong (parts a).2 := by
      rw [h.1, labels_node]
    apply balances_of_ok hrun
    rw [h.2, labels_emptyBlock, hroot, hlabels]
    abel
  | error v t =>
    rw [Disassembles, hrun] at h
    apply balances_of_error hrun
    rw [h, add_zero]

end Statement

namespace Program

/-- A swap moves labels between a program and the context beside it, or moves nothing. -/
theorem balances_swapContext (p : Program) (c : Context) :
    Balances (fun pair ↦ pair.1.labels + pair.2.labels) swapContext (p, c) {} := by
  cases hcheck : checkContext c with
  | ok _ =>
    apply balances_of_ok (swapContext_of_ok hcheck p)
    simp only [labels]
    abel
  | error defect =>
    apply balances_of_error (swapContext_of_error hcheck p)
    simp only [labels, add_zero]

theorem balances_swapBody (p : Program) {s : Statement} (hs : s.Sound) :
    Balances (fun pair ↦ pair.1.labels + pair.2.labels) swapBody (p, s) {} := by
  obtain ⟨label, children, rfl⟩ := hs.exists_node
  have hrun := swapBody_node p label children
  split_ifs at hrun with hkind
  · apply balances_of_ok hrun
    simp only [labels]
    abel
  · apply balances_of_error hrun
    simp only [labels, add_zero]

end Program

end BLTree

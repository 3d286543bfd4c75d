import BLTree.Edit

/-!
# Edits that keep a property

How an edit acts on a given value, as equations for its building blocks, and what it keeps. An edit
keeps a property when no run of it loses the property, whether the run ends or stops, and when it
stops only at contracts that its caller can break. The rules follow the building blocks of edits, so
that a property of an operation is a property of the pieces that it is put together from.
-/

namespace BLTree

/-- Violations that no caller of the kernel can be blamed for: the tree below a statement was taken
apart or put together against its contract, a node was not what its kind promises, or a position
inside of an operation was out of range. -/
def Violation.isInternal : Violation → Bool
  | treeOccupied | treeVacant | noSuchSubtree => true
  | unreachable _ | insertionIndex .. | removalIndex .. => true
  | _ => false

namespace Edit

variable {σ τ α β : Type}

/-- A stopped edit skips what follows and leaves the value as it is at that point. -/
@[simp]
theorem bind_apply (e : Edit σ α) (f : α → Edit σ β) (s : σ) :
    (e >>= f) s = match e s with
      | .ok a s => f a s
      | .error v s => .error v s := by
  change EStateM.bind e f s = _
  unfold EStateM.bind
  cases e s <;> rfl

@[simp]
theorem pure_apply (a : α) (s : σ) : (pure a : Edit σ α) s = .ok a s := rfl

@[simp]
theorem map_apply (f : α → β) (e : Edit σ α) (s : σ) :
    (f <$> e) s = match e s with
      | .ok a s => .ok (f a) s
      | .error v s => .error v s := by
  change EStateM.map f e s = _
  unfold EStateM.map
  cases e s <;> rfl

@[simp]
theorem throw_apply (v : Violation) (s : σ) : (throw v : Edit σ α) s = .error v s := rfl

@[simp]
theorem get_apply (s : σ) : (get : Edit σ σ) s = .ok s s := rfl

@[simp]
theorem set_apply (s t : σ) : (set t : Edit σ PUnit) s = .ok () t := rfl

@[simp]
theorem modify_apply (f : σ → σ) (s : σ) : (modify f : Edit σ PUnit) s = .ok () (f s) := rfl

/-- A precondition changes nothing, whether it holds or not. -/
@[simp]
theorem require_apply (holds : Bool) (v : Violation) (s : σ) :
    require holds v s = if holds then .ok () s else .error v s := by
  cases holds <;> rfl

@[simp]
theorem check_ok (a : α) : (check (.ok a) : Edit σ α) = pure a := rfl

@[simp]
theorem check_error (v : Violation) : (check (.error v) : Edit σ α) = throw v := rfl

/-- An edit of a part writes the part back also if it stops. -/
@[simp]
theorem within_apply (view : σ → τ) (put : τ → σ → σ) (e : Edit τ α) (s : σ) :
    within view put e s = match e (view s) with
      | .ok a t => .ok a (put t s)
      | .error v t => .error v (put t s) := rfl

/-- A run that leaves a value with `inv`; if it ended, its result has `post`, and if it stopped,
then not at an internal violation. -/
def Lands (inv : σ → Prop) (post : α → Prop) : EStateM.Result Violation σ α → Prop
  | .ok a t => post a ∧ inv t
  | .error v t => v.isInternal = false ∧ inv t

def Keeps (inv : σ → Prop) (e : Edit σ α) (post : α → Prop) : Prop :=
  ∀ s, inv s → Lands inv post (e s)

variable {inv : σ → Prop} {post : α → Prop}

/-- Doing nothing keeps any property. -/
theorem keeps_pure {a : α} (h : post a) : Keeps inv (pure a) post := by
  intro s hs
  exact ⟨h, hs⟩

/-- What is read has the property that is kept. -/
theorem keeps_get : Keeps inv get inv := by
  intro s hs
  exact ⟨hs, hs⟩

theorem keeps_set {t : σ} (h : inv t) : Keeps inv (set t) fun _ ↦ True := by
  intro s _
  exact ⟨trivial, h⟩

/-- A change keeps a property if it does so on every value that has it. -/
theorem keeps_modify {f : σ → σ} (h : ∀ s, inv s → inv (f s)) :
    Keeps inv (modify f) fun _ ↦ True := by
  intro s hs
  exact ⟨trivial, h s hs⟩

/-- Edits one after the other, where the second may rely on the result of the first. -/
theorem Keeps.bind {e : Edit σ β} {f : β → Edit σ α} {mid : β → Prop} (he : Keeps inv e mid)
    (hf : ∀ b, mid b → Keeps inv (f b) post) : Keeps inv (e >>= f) post := by
  intro s hs
  have hrun := he s hs
  rw [bind_apply]
  cases hres : e s with
  | ok b t =>
    rw [hres] at hrun
    exact hf b hrun.1 t hrun.2
  | error v t =>
    rw [hres] at hrun
    exact hrun

/-- A part of a value is edited within its own property, as long as reading and writing the part
respect the property of the whole. -/
theorem Keeps.within {e : Edit τ α} {part : τ → Prop} {view : σ → τ} {put : τ → σ → σ}
    (h : Keeps part e post) (hview : ∀ s, inv s → part (view s))
    (hput : ∀ t s, part t → inv s → inv (put t s)) : Keeps inv (within view put e) post := by
  intro s hs
  have hrun := h (view s) (hview s hs)
  rw [within_apply]
  cases hres : e (view s) with
  | ok a t =>
    rw [hres] at hrun
    exact ⟨hrun.1, hput t s hrun.2 hs⟩
  | error v t =>
    rw [hres] at hrun
    exact ⟨hrun.1, hput t s hrun.2 hs⟩

/-- What an edit builds, as a reading inside another edit. -/
theorem Keeps.check_build {e : Edit τ Unit} {part : τ → Prop} {start : τ} {any : Unit → Prop}
    (h : Keeps part e any) (hstart : part start) : Keeps inv (check (build start e)) part := by
  intro s hs
  have hrun := h start hstart
  unfold build
  cases hres : e start with
  | ok a t =>
    rw [hres] at hrun
    exact ⟨hrun.2, hs⟩
  | error v t =>
    rw [hres] at hrun
    exact ⟨hrun.1, hs⟩

end Edit

end BLTree

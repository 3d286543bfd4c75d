import BLTree.Proofs.Json.RoundTrip

/-!
# Swaps that undo each other and stay out of each other's way

Each operation on a program works on a part of its own: the name, the context together with the one
beside the program, or the body together with the statement beside it. What the operation makes of
its part, and whether it stops, is decided by that part alone, so that operations on different parts
can be done in either order. A swap is undone by the same swap, because what comes out of a program
has once passed the check on the way in.
-/

namespace BLTree

namespace Edit

variable {σ τ τ' : Type}

/-- What is left after an edit whose violation is caught: the violation, if there was one, and the
value. -/
def caught (e : Edit σ Unit) (s : σ) : Option Violation × σ :=
  match e s with
  | .ok _ t => (none, t)
  | .error v t => (some v, t)

theorem caught_within (view : σ → τ) (put : τ → σ → σ) (e : Edit τ Unit) (s : σ) :
    caught (within view put e) s = ((caught e (view s)).1, put (caught e (view s)).2 s) := by
  unfold caught
  rw [within_apply]
  cases e (view s) with
  | ok _ t => rfl
  | error v t => rfl

/-- Two parts of a value, each of which can be written without a change to the other. -/
structure Apart (view : σ → τ) (put : τ → σ → σ) (view' : σ → τ') (put' : τ' → σ → σ) : Prop where
  view_put' : ∀ t' s, view (put' t' s) = view s
  view'_put : ∀ t s, view' (put t s) = view' s
  put_put' : ∀ t t' s, put t (put' t' s) = put' t' (put t s)

/-- Two edits, done in either order, stop at the same violations and leave the same value. -/
structure Commuting (first second : Edit σ Unit) (s : σ) : Prop where
  value : (caught second (caught first s).2).2 = (caught first (caught second s).2).2
  firstViolation : (caught first s).1 = (caught first (caught second s).2).1
  secondViolation : (caught second (caught first s).2).1 = (caught second s).1

/-- Edits of parts that are apart commute, with their results and their violations. -/
theorem Apart.commuting {view : σ → τ} {put : τ → σ → σ} {view' : σ → τ'} {put' : τ' → σ → σ}
    (h : Apart view put view' put') (first : Edit τ Unit) (second : Edit τ' Unit) (s : σ) :
    Commuting (within view put first) (within view' put' second) s where
  value := by simp only [caught_within, h.view'_put, h.view_put', h.put_put']
  firstViolation := by simp only [caught_within, h.view_put']
  secondViolation := by simp only [caught_within, h.view'_put]

/-- Exchanges two values, unless there is something to be said against the second one. -/
def exchange (refusal : τ → Option Violation) : Edit (τ × τ) Unit := fun (inside, outside) ↦
  match refusal outside with
  | none => .ok () (outside, inside)
  | some v => .error v (inside, outside)

end Edit

namespace Program

inductive Component where
  | name
  | context
  | body

/-- An operation that changes a program. -/
inductive Operation where
  | setName (name : Identifier)
  | swapContext
  | swapBody

/-- A program, with the context and the statement that are given to its swaps. -/
structure Desk where
  program : Program
  context : Context
  statement : Statement

namespace Operation

def component : Operation → Component
  | setName _ => .name
  | swapContext => .context
  | swapBody => .body

def edit : Operation → Edit Desk Unit
  | setName name => modify fun d ↦ { d with program := d.program.setName name }
  | swapContext =>
    Edit.within (fun d ↦ (d.program, d.context))
      (fun (p, c) d ↦ { d with program := p, context := c }) Program.swapContext
  | swapBody =>
    Edit.within (fun d ↦ (d.program, d.statement))
      (fun (p, s) d ↦ { d with program := p, statement := s }) Program.swapBody

end Operation

/-- The programs have the same components, with the possible exception of one. -/
structure SameBut (exception : Component) (p q : Program) : Prop where
  name : exception ≠ .name → q.name = p.name
  context : exception ≠ .context → q.context = p.context
  body : exception ≠ .body → q.body = p.body

namespace Component

/-- A component, together with what it can be exchanged with. -/
def Part : Component → Type
  | name => Identifier
  | context => Context × Context
  | body => Statement × Statement

def view : (k : Component) → Desk → k.Part
  | name, d => d.program.name
  | context, d => (d.program.context, d.context)
  | body, d => (d.program.body, d.statement)

def put : (k : Component) → k.Part → Desk → Desk
  | name, n, d => { d with program := { d.program with name := n } }
  | context, (inside, outside), d =>
    { d with program := { d.program with context := inside }, context := outside }
  | body, (inside, outside), d =>
    { d with program := { d.program with body := inside }, statement := outside }

/-- Different components of a program are apart. -/
theorem apart {k k' : Component} (h : k ≠ k') : Edit.Apart k.view k.put k'.view k'.put := by
  cases k <;> cases k' <;>
    first | exact absurd rfl h | exact ⟨fun _ _ ↦ rfl, fun _ _ ↦ rfl, fun _ _ _ ↦ rfl⟩

theorem sameBut_put (k : Component) (part : k.Part) (d : Desk) :
    SameBut k d.program (k.put part d).program := by
  cases k with
  | name => exact ⟨fun h ↦ absurd rfl h, fun _ ↦ rfl, fun _ ↦ rfl⟩
  | context => exact ⟨fun _ ↦ rfl, fun h ↦ absurd rfl h, fun _ ↦ rfl⟩
  | body => exact ⟨fun _ ↦ rfl, fun _ ↦ rfl, fun h ↦ absurd rfl h⟩

end Component

/-- What a program has against a context. -/
def contextRefusal (c : Context) : Option Violation :=
  match checkContext c with
  | .ok _ => none
  | .error defect => some defect.violation

/-- What a program has against a statement as its body; one without any label cannot even be
looked at. -/
def bodyRefusal (s : Statement) : Option Violation :=
  match s.isKind .block with
  | .ok isBlock => if isBlock then none else some .programBodyNotBlock
  | .error v => some v

/-- `swap` writes the value beside a program into the program and what was there beside it, unless
there is something to be said against the value. -/
structure Exchanges {α : Type} (swap : Edit (Program × α) Unit) (part : Program → α)
    (put : α → Program → Program) (refusal : α → Option Violation) : Prop where
  apply_eq : ∀ p a, swap (p, a) =
    match refusal a with
    | none => .ok () (put a p, part p)
    | some v => .error v (p, a)
  part_put : ∀ a p, part (put a p) = a
  put_part : ∀ a p, put (part p) (put a p) = p

/-- A swap of contexts exchanges them unless the new one is refused. -/
theorem exchanges_swapContext :
    Exchanges swapContext context (fun c p ↦ { p with context := c }) contextRefusal where
  apply_eq p c := by
    unfold contextRefusal
    cases hcheck : checkContext c with
    | ok _ => exact swapContext_of_ok hcheck p
    | error defect => exact swapContext_of_error hcheck p
  part_put _ _ := rfl
  put_part _ _ := rfl

theorem exchanges_swapBody :
    Exchanges swapBody body (fun s p ↦ { p with body := s }) bodyRefusal where
  apply_eq p s := by
    unfold bodyRefusal swapBody
    cases hkind : s.isKind .block with
    | ok isBlock => cases isBlock <;> simp [hkind]
    | error v => simp [hkind]
  part_put _ _ := rfl
  put_part _ _ := rfl

namespace Operation

/-- An operation as an edit of the part that it works on. -/
def onPart : (op : Operation) → Edit op.component.Part Unit
  | setName name => (set name : Edit Identifier Unit)
  | swapContext => Edit.exchange contextRefusal
  | swapBody => Edit.exchange bodyRefusal

/-- Every operation reads and writes one component only. -/
theorem edit_eq_within (op : Operation) :
    op.edit = Edit.within op.component.view op.component.put op.onPart := by
  funext d
  -- A swap is judged by what lies beside the program, which its part has in it.
  cases op with
  | setName name => rfl
  | swapContext =>
    rw [edit, Edit.within_apply, Edit.within_apply, exchanges_swapContext.apply_eq]
    simp only [onPart, Edit.exchange, component, Component.view]
    cases contextRefusal d.context with
    | none => rfl
    | some v => rfl
  | swapBody =>
    rw [edit, Edit.within_apply, Edit.within_apply, exchanges_swapBody.apply_eq]
    simp only [onPart, Edit.exchange, component, Component.view]
    cases bodyRefusal d.statement with
    | none => rfl
    | some v => rfl

/-- An operation changes no component but its own, whether or not it stops. -/
theorem sameBut_caught (op : Operation) (d : Desk) :
    SameBut op.component d.program (op.edit.caught d).2.program := by
  rw [op.edit_eq_within, Edit.caught_within]
  exact op.component.sameBut_put _ d

/-- Operations on different components commute, whether they succeed or not. -/
theorem commuting {first second : Operation} (h : first.component ≠ second.component) (d : Desk) :
    Edit.Commuting first.edit second.edit d := by
  rw [first.edit_eq_within, second.edit_eq_within]
  exact (Component.apart h).commuting first.onPart second.onPart d

end Operation

/-! ## Swapping twice -/

/-- `swap` exchanges the part of a program that `part` reads, and doing it again on what it leaves
brings everything back. -/
structure SwapsBack {α : Type} (swap : Edit (Program × α) Unit) (part : Program → α) (p : Program)
    (a : α) : Prop where
  exchanged : ∀ p' a', swap (p, a) = .ok () (p', a') → part p' = a ∧ a' = part p
  back : ∀ p' a', swap (p, a) = .ok () (p', a') → swap (p', a') = .ok () (p, a)

/-- Swapping twice restores both sides, since what comes out of a program is accepted by it again.
-/
theorem Exchanges.swapsBack {α : Type} {swap : Edit (Program × α) Unit} {part : Program → α}
    {put : α → Program → Program} {refusal : α → Option Violation}
    (h : Exchanges swap part put refusal) {p : Program} (hp : refusal (part p) = none) (a : α) :
    SwapsBack swap part p a := by
  have hok : ∀ p' a', swap (p, a) = .ok () (p', a') → p' = put a p ∧ a' = part p := by
    intro p' a' hswap
    rw [h.apply_eq] at hswap
    cases hrefusal : refusal a with
    | none =>
      rw [hrefusal] at hswap
      cases hswap
      exact ⟨rfl, rfl⟩
    | some v =>
      rw [hrefusal] at hswap
      cases hswap
  constructor
  · intro p' a' hswap
    obtain ⟨rfl, rfl⟩ := hok p' a' hswap
    exact ⟨h.part_put a p, rfl⟩
  · intro p' a' hswap
    obtain ⟨rfl, rfl⟩ := hok p' a' hswap
    rw [h.apply_eq, hp, h.put_part, h.part_put]

theorem Sound.contextRefusal_eq_none {p : Program} (hp : p.Sound) :
    contextRefusal p.context = none := by
  rw [contextRefusal, hp.admissible]

theorem Sound.bodyRefusal_eq_none {p : Program} (hp : p.Sound) : bodyRefusal p.body = none := by
  obtain ⟨label, children, hbody⟩ := hp.body.exists_node
  have hblock := hp.bodyBlock
  rw [hbody, Statement.isBlock_node] at hblock
  rw [hbody, bodyRefusal]
  simp [hblock]

/-- On a reachable program a swap that succeeds is undone by the same swap. Each operation leaves
the other two components alone, and two operations on different components can be done in either
order, also when one of them or both are refused. -/
theorem swaps_reversible_and_independent (p : Program) (hp : p.Reachable) (c : Context)
    (s : Statement) :
    SwapsBack swapContext context p c ∧ SwapsBack swapBody body p s ∧
      (∀ op : Operation, SameBut op.component p (op.edit.caught ⟨p, c, s⟩).2.program) ∧
      ∀ first second : Operation, first.component ≠ second.component →
        Edit.Commuting first.edit second.edit ⟨p, c, s⟩ := by
  refine ⟨exchanges_swapContext.swapsBack hp.sound.contextRefusal_eq_none c,
    exchanges_swapBody.swapsBack hp.sound.bodyRefusal_eq_none s, ?_, ?_⟩
  · intro op
    exact op.sameBut_caught ⟨p, c, s⟩
  · intro first second hne
    exact Operation.commuting hne ⟨p, c, s⟩

/-- A program with a procedure is given a new body, which can be taken back, and refuses a context
with a procedure named after a primitive instruction before and after that. -/
theorem swaps_reversible_beside_refused_context :
    let walk : Identifier := ⟨"walk", by decide⟩
    let p := (Workspace.runAll {} [.insert "c" walk "s", .swapContext "p" "c"]).programs.get "p"
    let s : Statement := ⟨.node .block [.node (.call walk) []]⟩
    let swapped : Program := { p with body := s }
    (p.Reachable ∧ p.context.names = [walk]) ∧
    (swapBody (p, s) = .ok () (swapped, p.body) ∧ swapBody (swapped, p.body) = .ok () (p, s)) ∧
    (Operation.swapContext.edit.caught ⟨p, Workspace.mixedContext, s⟩).1 = some .contextRefused ∧
    Edit.Commuting Operation.swapContext.edit Operation.swapBody.edit
      ⟨p, Workspace.mixedContext, s⟩ := by
  intro walk p s swapped
  have hp : p.Reachable := ⟨{}, _, "p", ⟨nofun, nofun, nofun⟩, rfl⟩
  obtain ⟨-, hback, -, hcommuting⟩ :=
    swaps_reversible_and_independent p hp Workspace.mixedContext s
  have hswap : swapBody (p, s) = .ok () (swapped, p.body) := rfl
  exact ⟨⟨hp, by decide⟩, ⟨hswap, hback.back _ _ hswap⟩, by decide,
    hcommuting .swapContext .swapBody nofun⟩

end Program

end BLTree

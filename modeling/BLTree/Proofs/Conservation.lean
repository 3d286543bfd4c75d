import BLTree.Proofs.Construction
import BLTree.Proofs.Labels

/-!
# Labels along runs

No label gets lost in a workspace and none appears twice. The ledger of a step says which labels
come into the workspace and which leave it: assembling, copying and decoding bring labels in,
disassembling takes out the label at a root, and what is overwritten or handed to an operation that
then violates its contract is discarded. Everything else is moved. Each step settles its ledger, and
by induction a run settles the sum of the ledgers of its steps.
-/

namespace BLTree

open Edit

/-- The labels that come into a workspace and those that leave it, by reason. -/
structure Ledger where
  assembled : Multiset Label := 0
  copied : Multiset Label := 0
  decoded : Multiset Label := 0
  disassembled : Multiset Label := 0
  discarded : Multiset Label := 0

namespace Ledger

def gains (l : Ledger) : Multiset Label := l.assembled + l.copied + l.decoded

def losses (l : Ledger) : Multiset Label := l.disassembled + l.discarded

instance : Add Ledger where
  add l m := {
    assembled := l.assembled + m.assembled
    copied := l.copied + m.copied
    decoded := l.decoded + m.decoded
    disassembled := l.disassembled + m.disassembled
    discarded := l.discarded + m.discarded }

theorem gains_add (l m : Ledger) : (l + m).gains = l.gains + m.gains := by
  change l.assembled + m.assembled + (l.copied + m.copied) + (l.decoded + m.decoded) = _
  rw [gains, gains]
  abel

theorem losses_add (l m : Ledger) : (l + m).losses = l.losses + m.losses := by
  change l.disassembled + m.disassembled + (l.discarded + m.discarded) = _
  rw [losses, losses]
  abel

end Ledger

namespace Workspace

/-- All labels in a workspace, wherever they stand. -/
def labels (w : Workspace) : Multiset Label :=
  w.statements.total Statement.labels + w.contexts.total Context.labels +
    w.programs.total Program.labels

/-- The labels in a register for statements. -/
def held (w : Workspace) (s : String) : Multiset Label := (w.statements.get s).labels

/-- The registers whose statements a step hands over by value. -/
def Step.arguments : Step → List String
  | .block _ members => members
  | .take s _ | .wrap s .. => [s]
  | .add _ _ member => [member]
  | .assembleIf _ _ body | .assembleWhile _ _ body | .insert _ _ body => [body]
  | .assembleIfElse _ _ thenBody elseBody => [thenBody, elseBody]
  | _ => []

/-- What is taken out of registers. One that is named twice has nothing left the second time. -/
def taken (w : Workspace) (names : List String) : Multiset Label := ∑ s ∈ names.toFinset, w.held s

/-- What a register still holds after some were emptied. -/
def left (w : Workspace) (names : List String) (s : String) : Multiset Label :=
  if s ∈ names then 0 else w.held s

/-- The ledger of a step that is done. A result is stored over what its register holds by then: the
arguments and a disassembled receiver are gone, a block that lost a member holds the others, and the
first of two results may itself be in the way of the second. -/
def settled (w : Workspace) : Step → Ledger
  | .new s | .clear s => { discarded := w.held s }
  | .call s name | .assembleCall s name =>
    { assembled := {.call name}, discarded := w.held s }
  | .block s members => { discarded := w.left members s }
  | .take s into => { discarded := w.left [s] into }
  | .clone s into => { copied := w.held s, discarded := w.held into }
  | .add .. | .setName .. | .swapContext .. | .swapBody .. => {}
  | .remove s position into =>
    { discarded := if into = s then
        Tree.labelsAmong ((w.statements.get s).tree.children.eraseIdx position)
      else w.held into }
  | .assembleIf s guard body => { assembled := {.ifThen guard}, discarded := w.left [body] s }
  | .assembleIfElse s guard thenBody elseBody =>
    { assembled := {.ifElse guard}, discarded := w.left [thenBody, elseBody] s }
  | .assembleWhile s guard body => { assembled := {.whileDo guard}, discarded := w.left [body] s }
  | .disassembleIf s into | .disassembleWhile s into =>
    { disassembled := (w.statements.get s).rootLabel, discarded := w.left [s] into }
  | .disassembleIfElse s intoThen intoElse =>
    { disassembled := (w.statements.get s).rootLabel
      discarded := w.left [s] intoThen + if intoElse = intoThen then
          Tree.labelsAmong ((w.statements.get s).tree.children.take 1)
        else w.left [s] intoElse }
  | .disassembleCall s => { disassembled := (w.statements.get s).rootLabel }
  | .wrap _ guard times => { assembled := .replicate times (.whileDo guard) }
  | .decode s text =>
    { decoded := (Json.decode Statement.reader text).toOption.elim 0 Statement.labels
      discarded := w.held s }
  | .insert c name _ => { discarded := (w.contexts.get c).labelsAt name.text }
  | .delete c name into =>
    { discarded := if ((w.contexts.get c).get? name).isSome then w.held into else 0 }
  | .newContext c => { discarded := (w.contexts.get c).labels }
  | .newProgram p => { discarded := (w.programs.get p).labels }
  | .cloneProgram p into =>
    { copied := (w.programs.get p).labels, discarded := (w.programs.get into).labels }
  | .decodeProgram p text =>
    { decoded := (Program.decode text).toOption.elim 0 Program.labels
      discarded := (w.programs.get p).labels }

/-- The ledger of a step. A violated contract costs the arguments, an unreadable text nothing. -/
def ledger (w : Workspace) (step : Step) : Ledger :=
  match (run step w).1 with
  | .done _ => w.settled step
  | .violated _ => { discarded := w.taken step.arguments }
  | .unread _ => {}

/-- The ledgers of all steps of a run in one. -/
def ledgers : Workspace → List Step → Ledger
  | _, [] => {}
  | w, step :: steps => w.ledger step + ledgers (run step w).2 steps

/-- Storing a statement changes what one register holds. -/
theorem held_store (w : Workspace) (s other : String) (value : Statement) :
    (w.store s value).held other = if other = s then value.labels else w.held other := by
  rw [held, get_store]
  split_ifs <;> rfl

/-- Storing a statement does away with exactly what its register held. -/
theorem labels_store (w : Workspace) (s : String) (value : Statement) :
    (w.store s value).labels + w.held s = w.labels + value.labels := by
  calc (w.store s value).labels + w.held s
    _ = ((w.statements.set s value).total Statement.labels + (w.statements.get s).labels) +
        w.contexts.total Context.labels + w.programs.total Program.labels := by
      rw [labels, held, store]
      abel
    _ = w.labels + value.labels := by
      rw [Registers.total_set Statement.labels_emptyBlock, labels]
      abel

/-- What a context register holds is replaced, and all else is kept. -/
theorem labels_setContext (w : Workspace) (c : String) (value : Context) :
    labels { w with contexts := w.contexts.set c value } + (w.contexts.get c).labels =
      w.labels + value.labels := by
  calc labels { w with contexts := w.contexts.set c value } + (w.contexts.get c).labels
    _ = w.statements.total Statement.labels + ((w.contexts.set c value).total Context.labels +
        (w.contexts.get c).labels) + w.programs.total Program.labels := by
      rw [labels]
      abel
    _ = w.labels + value.labels := by
      rw [Registers.total_set Context.labels_empty, labels]
      abel

/-- What a program register holds is replaced, and all else is kept. -/
theorem labels_setProgram (w : Workspace) (p : String) (value : Program) :
    labels { w with programs := w.programs.set p value } + (w.programs.get p).labels =
      w.labels + value.labels := by
  calc labels { w with programs := w.programs.set p value } + (w.programs.get p).labels
    _ = w.statements.total Statement.labels + w.contexts.total Context.labels +
        ((w.programs.set p value).total Program.labels + (w.programs.get p).labels) := by
      rw [labels]
      abel
    _ = w.labels + value.labels := by
      rw [Registers.total_set Program.labels_new, labels]
      abel

/-- The workspace with empty blocks in some of the registers for statements. -/
def emptied (w : Workspace) (names : List String) : Workspace :=
  names.foldl (fun w s ↦ w.store s .emptyBlock) w

/-- Arguments are moved out of their registers, which hold nothing afterwards. -/
theorem held_emptied (w : Workspace) (names : List String) (s : String) :
    (w.emptied names).held s = w.left names s := by
  induction names generalizing w with
  | nil => simp [emptied, left]
  | cons name names ih =>
    have hrest : (w.emptied (name :: names)).held s = (w.store name .emptyBlock).left names s :=
      ih _
    rw [hrest, left, left, held_store]
    by_cases hname : s = name <;> simp [hname]

/-- A register that is named twice gives its statement the first time only. -/
theorem taken_cons (w : Workspace) (name : String) (names : List String) :
    w.taken (name :: names) = w.held name + (w.store name .emptyBlock).taken names := by
  have hothers : (w.store name .emptyBlock).taken names =
      ∑ s ∈ names.toFinset.erase name, w.held s := by
    have hname : (w.store name .emptyBlock).held name = 0 := by simp [held_store]
    rw [taken, ← Finset.sum_erase names.toFinset hname]
    apply Finset.sum_congr rfl
    intro s hs
    rw [held_store, if_neg (Finset.ne_of_mem_erase hs)]
  calc w.taken (name :: names)
    _ = ∑ s ∈ insert name names.toFinset, w.held s := by rw [taken, List.toFinset_cons]
    _ = w.held name + ∑ s ∈ (insert name names.toFinset).erase name, w.held s :=
      (Finset.add_sum_erase _ _ (Finset.mem_insert_self _ _)).symm
    _ = w.held name + (w.store name .emptyBlock).taken names := by
      rw [Finset.erase_insert_eq_erase, hothers]

/-- What was taken out is missing from the store, and nothing else is. -/
theorem labels_emptied (w : Workspace) (names : List String) :
    (w.emptied names).labels + w.taken names = w.labels := by
  induction names generalizing w with
  | nil => simp [emptied, taken]
  | cons name names ih =>
    have hstore := w.labels_store name .emptyBlock
    rw [Statement.labels_emptyBlock, add_zero] at hstore
    calc (w.emptied (name :: names)).labels + w.taken (name :: names)
      _ = ((w.store name .emptyBlock).emptied names).labels +
          (w.store name .emptyBlock).taken names + w.held name := by
        rw [taken_cons, emptied, emptied, List.foldl_cons]
        abel
      _ = w.labels := by rw [ih, hstore]

/-- The arguments of a step have together the labels that were taken. -/
theorem takeStatements_apply (w : Workspace) (names : List String) :
    ∃ values, takeStatements names w = .ok values (w.emptied names) ∧
      (values.map Statement.labels).sum = w.taken names := by
  induction names generalizing w with
  | nil => exact ⟨[], rfl, rfl⟩
  | cons name names ih =>
    obtain ⟨values, hrun, hvalues⟩ := ih (w.store name .emptyBlock)
    refine ⟨w.statements.get name :: values, ?_, ?_⟩
    · simp [takeStatements, takeStatement_apply, hrun, emptied]
    · rw [List.map_cons, List.sum_cons, hvalues, taken_cons, held]

variable {w : Workspace} {α β : Type}

/-- Storing a statement discards the one that was there. -/
theorem balances_putStatement (w : Workspace) (s : String) {value : Statement}
    {given made : Multiset Label} (hvalue : value.labels = given + made) :
    Balances labels (putStatement s value) w { given, made, lost := w.held s } := by
  have hrun : putStatement s value w = .ok () (w.store s value) := rfl
  apply balances_of_ok hrun
  rw [add_zero, labels_store, hvalue, add_assoc]

/-- A workspace accounts for a kernel operation as its receiver does. -/
theorem balances_onStatement {e : Edit Statement α} {s : String} {account : Account α}
    (h : Balances Statement.labels e (w.statements.get s) account) :
    Balances labels (onStatement s e) w account := by
  have hregisters :
      Balances (Registers.total Statement.labels) (Registers.edit s e) w.statements account := by
    apply Balances.within
    · exact h
    · exact Registers.total_set Statement.labels_emptyBlock w.statements s
  apply Balances.within
  · exact hregisters
  · intro registers
    simp only [labels]
    abel

/-- An operation is given what was taken out of registers for it. -/
theorem balances_taking {e f : Edit Workspace α} {names : List String}
    {made lost : Multiset Label} (hrun : e w = f (w.emptied names))
    (h : Balances labels f (w.emptied names) { given := w.taken names, made, lost }) :
    Balances labels e w { made, lost, stray := w.taken names } := by
  have htaken := w.labels_emptied names
  cases hf : f (w.emptied names) with
  | ok a after =>
    rw [Balances, hf] at h
    apply balances_of_ok (hrun.trans hf)
    rw [h, htaken, add_zero]
  | error v after =>
    rw [Balances, hf] at h
    apply balances_of_error (hrun.trans hf)
    rw [← htaken, ← h, add_zero]

/-- A swap neither makes nor loses a label, also if it is refused. -/
theorem balances_swapContext (w : Workspace) (p c : String) :
    Balances labels (swapContext p c) w {} := by
  apply Balances.within
  · exact Program.balances_swapContext (w.programs.get p) (w.contexts.get c)
  intro (program, context)
  let between : Workspace := { w with programs := w.programs.set p program }
  have hprogram := w.labels_setProgram p program
  have hcontext := between.labels_setContext c context
  calc labels { between with contexts := between.contexts.set c context } +
        ((w.programs.get p).labels + (w.contexts.get c).labels)
    _ = labels { between with contexts := between.contexts.set c context } +
        (between.contexts.get c).labels + (w.programs.get p).labels := by abel
    _ = between.labels + (w.programs.get p).labels + context.labels := by
      rw [hcontext]
      abel
    _ = w.labels + (program.labels + context.labels) := by
      rw [hprogram]
      abel

/-- The same for bodies, of which both sides have to be sound. -/
theorem balances_swapBody (hw : w.Sound) (p s : String) :
    Balances labels (swapBody p s) w {} := by
  apply Balances.within
  · exact Program.balances_swapBody (w.programs.get p) (hw.statements s)
  intro (program, body)
  let between : Workspace := { w with programs := w.programs.set p program }
  have hprogram := w.labels_setProgram p program
  have hbody := between.labels_store s body
  calc (between.store s body).labels + ((w.programs.get p).labels + (w.statements.get s).labels)
    _ = (between.store s body).labels + between.held s + (w.programs.get p).labels := by
      rw [held]
      abel
    _ = between.labels + (w.programs.get p).labels + body.labels := by
      rw [hbody]
      abel
    _ = w.labels + (program.labels + body.labels) := by
      rw [hprogram]
      abel

/-! ## One step -/

/-- The step settles a ledger if it is done; it loses its arguments if it violates a contract, and
nothing if it cannot read a text. -/
def Settles (f : Workspace → Outcome × Workspace) (w : Workspace) (l : Ledger)
    (arguments : Multiset Label) : Prop :=
  match f w with
  | (.done _, after) => after.labels + l.losses = w.labels + l.gains
  | (.violated _, after) => after.labels + arguments = w.labels
  | (.unread _, after) => after.labels = w.labels

variable {l : Ledger} {arguments : Multiset Label}

/-- A step settles its ledger if the edit that it performs is balanced. -/
theorem settles_perform {e : Edit Workspace Yield}
    (h : Balances labels e w { made := l.gains, lost := l.losses, stray := arguments }) :
    Settles (perform e) w l arguments := by
  rw [Settles, perform]
  cases hrun : e w with
  | ok yield after =>
    rw [Balances, hrun] at h
    simpa using h
  | error v after =>
    rw [Balances, hrun] at h
    exact h

theorem settles_silently {e : Edit Workspace Unit}
    (h : Balances labels e w { made := l.gains, lost := l.losses, stray := arguments }) :
    Settles (silently e) w l arguments := by
  apply settles_perform
  have hyield := h.bind_ok (f := fun _ ↦ pure Yield.nothing) fun a after _ ↦
    ⟨.nothing, after, rfl, (rfl : after.labels + 0 = after.labels + 0)⟩
  simpa using hyield

/-- A step that is done settles a ledger if it exchanges labels for others as the ledger says. -/
theorem settles_of_done {f : Workspace → Outcome × Workspace} {yield : Yield} {after : Workspace}
    {old new : Multiset Label} (hrun : f w = (.done yield, after))
    (hafter : after.labels + old = w.labels + new) (hl : new + l.losses = old + l.gains) :
    Settles f w l arguments := by
  rw [Settles, hrun]
  apply add_right_cancel (b := old)
  calc after.labels + l.losses + old
    _ = (after.labels + old) + l.losses := by abel
    _ = w.labels + (new + l.losses) := by
      rw [hafter]
      abel
    _ = w.labels + l.gains + old := by
      rw [hl]
      abel

/-- A value is read and stored, or nothing happens. -/
theorem settles_receive {value : Except Json.Failure α} {put : α → Edit Workspace Unit}
    {count : α → Multiset Label} {store : α → Workspace} {old : Multiset Label}
    (hput : ∀ a, put a w = .ok () (store a))
    (hstore : ∀ a, (store a).labels + old = w.labels + count a) :
    Settles (receive value put) w { decoded := value.toOption.elim 0 count, discarded := old }
      arguments := by
  cases value with
  | error failure =>
    rw [Settles, receive]
  | ok a =>
    apply settles_of_done (silently_ok (hput a)) (hstore a)
    simp [Except.toOption, Ledger.gains, Ledger.losses, add_comm]

@[simp]
theorem taken_nil (w : Workspace) : w.taken [] = 0 := rfl

theorem taken_singleton (w : Workspace) (s : String) : w.taken [s] = w.held s := by
  simp [taken]

/-- A sound statement may be stored anywhere. -/
theorem sound_store (hw : w.Sound) (s : String) {value : Statement} (hvalue : value.Sound) :
    (w.store s value).Sound :=
  (keeps_putStatement s hvalue w hw).2

theorem exists_of_onStatement {e : Edit Statement α} {s : String} {a : α} {after : Workspace}
    (h : onStatement s e w = .ok a after) :
    ∃ t, e (w.statements.get s) = .ok a t ∧ after = w.store s t := by
  cases hrun : e (w.statements.get s) with
  | ok b t =>
    rw [onStatement_ok hrun] at h
    cases h
    exact ⟨t, rfl, rfl⟩
  | error v t =>
    simp [onStatement, Registers.edit, hrun] at h

/-- A construct is assembled out of what was taken for it. -/
theorem balances_assembling {e : Edit Workspace Unit} {f : Edit Statement Unit}
    {names : List String} {s : String} {l : Label} {children : List (Tree Label)}
    (hrun : e w = onStatement s f (w.emptied names))
    (hf : Statement.Assembles f ((w.emptied names).statements.get s) l children)
    (hl : l.kind ≠ .block) (hchildren : Tree.labelsAmong children = w.taken names) :
    Balances labels e w
      { made := {l}, lost := w.left names s, stray := w.taken names } := by
  apply balances_taking hrun
  rw [← hchildren, ← held_emptied]
  exact balances_onStatement (hf.balances hl)

/-- A construct is taken apart, and a later edit stores its bodies. -/
theorem balances_disassembling {e : Edit Statement α} {parts : α → Label × List (Tree Label)}
    {s : String} {f : α → Edit Workspace Yield} {lost : Multiset Label}
    (h : Statement.Disassembles e (w.statements.get s) parts)
    (hf : ∀ a, w.statements.get s = ⟨.node (parts a).1 (parts a).2⟩ →
      ∃ yield after, f a (w.emptied [s]) = .ok yield after ∧
        after.labels + lost = (w.emptied [s]).labels + Tree.labelsAmong (parts a).2) :
    Balances labels (onStatement s e >>= f) w
      { lost := (w.statements.get s).rootLabel + lost } := by
  apply (balances_onStatement h.balances).bind_ok
  intro a after hrun
  obtain ⟨t, ht, rfl⟩ := exists_of_onStatement hrun
  rw [Statement.Disassembles, ht] at h
  rw [h.2]
  exact hf a h.1

/-- Statements that become members keep their labels; the block itself counts for nothing. -/
theorem settles_block (hw : w.Sound) (s : String) (members : List String) :
    Settles (run (.block s members)) w { discarded := w.left members s } (w.taken members) := by
  obtain ⟨values, hvalues, htaken⟩ := w.takeStatements_apply members
  have hsound := keeps_takeStatements members w hw
  rw [hvalues] at hsound
  apply settles_silently
  simp only [Ledger.gains, Ledger.losses, add_zero, zero_add]
  apply balances_taking (f := do putStatement s (← Edit.check (Statement.block values)))
  · rw [bind_apply, hvalues]
  · cases hblock : Statement.block values with
    | ok t =>
      rw [check_ok, pure_bind, ← held_emptied]
      apply balances_putStatement
      rw [Statement.labels_of_block hsound.1 hblock, htaken, add_zero]
    | error v =>
      have hrun : (do putStatement s (← Edit.check (.error v))) (w.emptied members) =
          .error v (w.emptied members) := rfl
      exact balances_of_error hrun (add_zero _)

theorem settles_take (w : Workspace) (s into : String) :
    Settles (run (.take s into)) w { discarded := w.left [s] into } (w.taken [s]) := by
  have hrun : run (.take s into) w =
      (.done .nothing, (w.emptied [s]).store into (w.statements.get s)) := rfl
  have hafter : ((w.emptied [s]).store into (w.statements.get s)).labels + w.left [s] into =
      w.labels + 0 := by
    rw [← held_emptied, labels_store, add_zero, ← w.labels_emptied [s], taken_singleton, held]
  apply settles_of_done hrun hafter
  simp [Ledger.gains, Ledger.losses]

/-- A member that is refused is lost, since it had been taken out of its register. -/
theorem settles_add (hw : w.Sound) (s : String) (position : Nat) (member : String) :
    Settles (run (.add s position member)) w {} (w.taken [member]) := by
  have hemptied := sound_store hw member Statement.sound_emptyBlock
  apply settles_silently
  simp only [Ledger.gains, Ledger.losses, add_zero]
  apply balances_taking
    (f := onStatement s (Statement.addToBlock position (w.statements.get member)))
  · rfl
  · rw [taken_singleton]
    exact balances_onStatement
      (Statement.balances_addToBlock (hemptied.statements s) (hw.statements member) position)

/-- The member that is removed overwrites what its register held. -/
theorem settles_remove (hw : w.Sound) (s : String) (position : Nat) (into : String) :
    Settles (run (.remove s position into)) w
      { discarded := if into = s then
          Tree.labelsAmong ((w.statements.get s).tree.children.eraseIdx position)
        else w.held into } 0 := by
  have hremove := Statement.balances_removeFromBlock (hw.statements s) position
  apply settles_silently
  simp only [Ledger.gains, Ledger.losses, add_zero]
  apply (balances_onStatement hremove).bind_ok
  intro member after hrun
  obtain ⟨t, ht, rfl⟩ := exists_of_onStatement hrun
  -- By now the block holds the other members; they are in the way if it is to hold the removed one.
  refine ⟨(), (w.store s t).store into member, rfl, ?_⟩
  rw [← Statement.labels_of_removeFromBlock (hw.statements s) ht, ← held_store, labels_store]

/-- The IF and the WHILE construct in one: their label is new, and the body is moved. -/
theorem settles_assembleBody {l : Label} {f : Statement → Edit Statement Unit} {s body : String}
    (hf : ∀ t, Statement.Assembles (f (w.statements.get body)) t l
      [(w.statements.get body).tree]) (hl : l.kind ≠ .block) :
    Settles (silently do onStatement s (f (← takeStatement body))) w
      { assembled := {l}, discarded := w.left [body] s } (w.taken [body]) := by
  apply settles_silently
  simp only [Ledger.gains, Ledger.losses, add_zero, zero_add]
  apply balances_assembling (f := f (w.statements.get body)) rfl (hf _) hl
  simp [Tree.labelsAmong, taken_singleton, held, Statement.labels]

theorem settles_assembleIfElse (hw : w.Sound) (s : String) (guard : Condition)
    (thenBody elseBody : String) :
    Settles (run (.assembleIfElse s guard thenBody elseBody)) w
      { assembled := {.ifElse guard}, discarded := w.left [thenBody, elseBody] s }
      (w.taken [thenBody, elseBody]) := by
  have hemptied := sound_store hw thenBody Statement.sound_emptyBlock
  apply settles_silently
  simp only [Ledger.gains, Ledger.losses, add_zero, zero_add]
  apply balances_assembling rfl
  · exact Statement.assembles_assembleIfElse (hw.statements thenBody)
      (hemptied.statements elseBody) guard
  · nofun
  · simp only [taken_cons, Tree.labelsAmong]
    rfl

/-- The label is given up, and the body overwrites what its register held. -/
theorem settles_disassembleBody {e : Edit Statement (Condition × Statement)}
    {l : Condition → Label} {s : String}
    (h : Statement.Disassembles e (w.statements.get s) fun (guard, body) ↦ (l guard, [body.tree]))
    (into : String) :
    Settles
      (perform do
        let (guard, body) ← onStatement s e
        putStatement into body
        return .condition guard) w
      { disassembled := (w.statements.get s).rootLabel, discarded := w.left [s] into } 0 := by
  apply settles_perform
  simp only [Ledger.gains, Ledger.losses, add_zero]
  apply balances_disassembling h
  intro (guard, body) _
  refine ⟨.condition guard, (w.emptied [s]).store into body, rfl, ?_⟩
  rw [← held_emptied, labels_store, Tree.labelsAmong, Tree.labelsAmong, add_zero, Statement.labels]

theorem settles_disassembleIfElse (hw : w.Sound) (s intoThen intoElse : String) :
    Settles (run (.disassembleIfElse s intoThen intoElse)) w
      { disassembled := (w.statements.get s).rootLabel
        discarded := w.left [s] intoThen + if intoElse = intoThen then
            Tree.labelsAmong ((w.statements.get s).tree.children.take 1)
          else w.left [s] intoElse } 0 := by
  apply settles_perform
  simp only [Ledger.gains, Ledger.losses, add_zero]
  apply balances_disassembling (Statement.disassembles_ifElse (hw.statements s))
  intro (guard, thenBody, elseBody) hparts
  -- The bodies are stored one after the other, so the second may overwrite the first.
  let first := (w.emptied [s]).store intoThen thenBody
  have hinTheWay : first.held intoElse = if intoElse = intoThen then
      Tree.labelsAmong ((w.statements.get s).tree.children.take 1)
      else w.left [s] intoElse := by
    rw [held_store, held_emptied, hparts]
    simp [Tree.children, Tree.labelsAmong, Statement.labels]
  refine ⟨.condition guard, first.store intoElse elseBody, rfl, ?_⟩
  calc (first.store intoElse elseBody).labels + (w.left [s] intoThen + _)
    _ = (first.store intoElse elseBody).labels + first.held intoElse +
        (w.emptied [s]).held intoThen := by
      rw [hinTheWay, held_emptied]
      abel
    _ = first.labels + (w.emptied [s]).held intoThen + elseBody.labels := by
      rw [labels_store]
      abel
    _ = (w.emptied [s]).labels + Tree.labelsAmong [thenBody.tree, elseBody.tree] := by
      rw [labels_store, Tree.labelsAmong, Tree.labelsAmong, Tree.labelsAmong, Statement.labels,
        Statement.labels]
      abel

theorem settles_disassembleCall (hw : w.Sound) (s : String) :
    Settles (run (.disassembleCall s)) w
      { disassembled := (w.statements.get s).rootLabel } 0 := by
  have hdisassembles := Statement.disassembles_call (hw.statements s)
  have hyield := balances_disassembling hdisassembles (f := fun name ↦ pure (.name name))
    fun name _ ↦ ⟨.name name, w.emptied [s], rfl, rfl⟩
  apply settles_perform
  simpa [Ledger.gains, Ledger.losses, Tree.labelsAmong] using hyield

theorem wrap_node (guard : Condition) (label : Label) (children : List (Tree Label)) :
    wrap guard ⟨.node label children⟩ =
      if label.kind = .block then
        .ok () ⟨.node .block [.node (.whileDo guard) [.node label children]]⟩
      else .error .bodyNotBlock .emptyBlock := by
  have hloop : Edit.build .emptyBlock (Statement.assembleWhile guard ⟨.node label children⟩) =
      if label.kind = .block then .ok ⟨.node (.whileDo guard) [.node label children]⟩
      else .error .bodyNotBlock := by
    rw [Edit.build, Statement.assembleWhile, Statement.assembleSingle_node]
    split_ifs <;> rfl
  have htake : Statement.take ⟨.node label children⟩ =
      .ok ⟨.node label children⟩ .emptyBlock := rfl
  rw [wrap, Edit.bind_apply, htake]
  dsimp only
  rw [hloop]
  split_ifs <;> rfl

/-- A round that stops has taken the statement by then. -/
theorem balances_wrapTimes {s : Statement} (hs : s.Sound) (guard : Condition) (times : Nat) :
    Balances Statement.labels (wrapTimes guard times) s
      { made := .replicate times (.whileDo guard), stray := s.labels } := by
  induction times generalizing s with
  | zero =>
    have hrun : wrapTimes guard 0 s = .ok () s := rfl
    apply balances_of_ok hrun
    simp
  | succ times ih =>
    obtain ⟨label, children, rfl⟩ := hs.exists_node
    have hround := wrap_node guard label children
    split_ifs at hround with hkind
    · have hwrapped := keeps_wrap guard _ hs
      rw [hround] at hwrapped
      have hrounds := ih hwrapped.2
      have hlabels : Statement.labels
          ⟨.node .block [.node (.whileDo guard) [.node label children]]⟩ =
          {.whileDo guard} + Statement.labels ⟨.node label children⟩ := by
        simp [Statement.labels, Tree.labels, Tree.labelsAmong, Label.counted, Label.kind]
      have hrun : wrapTimes guard (times + 1) ⟨.node label children⟩ = wrapTimes guard times
          ⟨.node .block [.node (.whileDo guard) [.node label children]]⟩ := by
        rw [wrapTimes, Edit.bind_apply, hround]
      rw [Balances, hlabels] at hrounds
      rw [Balances, hrun]
      split at hrounds
      · simp only [hrounds, Multiset.replicate_succ, ← Multiset.singleton_add]
        abel
      · rw [add_eq_right.mp hrounds, zero_add]
    · apply balances_of_error (t := .emptyBlock)
      · rw [wrapTimes, Edit.bind_apply, hround]
      · rw [Statement.labels_emptyBlock, zero_add]

/-- Every round of wrapping makes one new label. -/
theorem settles_wrap (hw : w.Sound) (s : String) (guard : Condition) (times : Nat) :
    Settles (run (.wrap s guard times)) w
      { assembled := .replicate times (.whileDo guard) } (w.taken [s]) := by
  have hwrap :=
    balances_onStatement (balances_wrapTimes (hw.statements s) guard times)
  rw [← held, ← taken_singleton] at hwrap
  apply settles_silently
  simpa [Ledger.gains, Ledger.losses] using hwrap

/-- A procedure that is redefined loses its old body. -/
theorem settles_insert (w : Workspace) (c : String) (name : Identifier) (body : String) :
    Settles (run (.insert c name body)) w
      { discarded := (w.contexts.get c).labelsAt name.text } (w.taken [body]) := by
  let context := w.contexts.get c
  let value := w.statements.get body
  let after : Workspace :=
    { w.emptied [body] with contexts := w.contexts.set c (context.insert name value) }
  have hrun : run (.insert c name body) w = (.done (.replaced (context.get? name.text)), after) :=
    rfl
  have hset : after.labels + context.labels =
      (w.emptied [body]).labels + (context.insert name value).labels :=
    (w.emptied [body]).labels_setContext c _
  have hafter : after.labels + (context.labels + value.labels) =
      w.labels + (context.insert name value).labels := by
    rw [← w.labels_emptied [body], taken_singleton, held, ← add_assoc, hset]
    abel
  apply settles_of_done hrun hafter
  rw [Ledger.gains, Ledger.losses, zero_add, add_zero, add_zero, add_zero]
  exact context.labels_insert name value

/-- A deleted body is moved to a register, unless there is none under that name. -/
theorem settles_delete (w : Workspace) (c name into : String) :
    Settles (run (.delete c name into)) w
      { discarded := if ((w.contexts.get c).get? name).isSome then w.held into else 0 } 0 := by
  let context := w.contexts.get c
  cases hbody : context.get? name with
  | none =>
    have hrun : run (.delete c name into) w = (.done (.flag false), w) := by
      simp [run, perform, context, hbody]
    apply settles_of_done hrun (rfl : w.labels + 0 = w.labels + 0)
    simp [Ledger.gains, Ledger.losses]
  | some body =>
    let without : Workspace := { w with contexts := w.contexts.set c (context.erase name) }
    have hrun : run (.delete c name into) w = (.done (.flag true), without.store into body) := by
      simp [run, perform, context, hbody, putContext, putStatement, store, without]
    have hset : without.labels + context.labels = w.labels + (context.erase name).labels :=
      w.labels_setContext c _
    have hafter : (without.store into body).labels + (w.held into + context.labels) =
        w.labels + ((context.erase name).labels + body.labels) := by
      have hstore : (without.store into body).labels + w.held into =
          without.labels + body.labels := without.labels_store into body
      rw [← add_assoc, hstore, add_right_comm, hset, add_assoc]
    have hlabels : context.labelsAt name = body.labels := by
      rw [Context.labelsAt, hbody, Option.elim_some]
    apply settles_of_done hrun hafter
    rw [← hlabels, context.labels_erase, Ledger.gains, Ledger.losses, Option.isSome_some,
      if_pos rfl]
    abel

/-- Every step settles the ledger that is stated for it, one case for each step. -/
theorem settles_run (hw : w.Sound) (step : Step) :
    Settles (run step) w (w.settled step) (w.taken step.arguments) := by
  cases step with
  | new s =>
    apply settles_of_done (run_new s w) (w.labels_store s .emptyBlock)
    simp [settled, Ledger.gains, Ledger.losses]
  | call s name =>
    have hrun : run (.call s name) w = (.done .nothing, w.store s (.call name)) := rfl
    apply settles_of_done hrun (w.labels_store s (.call name))
    simp [settled, Ledger.gains, Ledger.losses, Statement.labels_call, add_comm]
  | block s members => exact settles_block hw s members
  | take s into => exact settles_take w s into
  | clear s =>
    have hrun : run (.clear s) w = (.done .nothing, w.store s .emptyBlock) := rfl
    apply settles_of_done hrun (w.labels_store s .emptyBlock)
    simp [settled, Ledger.gains, Ledger.losses]
  | clone s into =>
    have hrun : run (.clone s into) w =
        (.done .nothing, w.store into (w.statements.get s)) := rfl
    apply settles_of_done hrun (w.labels_store into (w.statements.get s))
    simp [settled, Ledger.gains, Ledger.losses, held, add_comm]
  | add s position member => exact settles_add hw s position member
  | remove s position into => exact settles_remove hw s position into
  | assembleIf s guard body =>
    exact settles_assembleBody
      (fun _ ↦ Statement.assembles_assembleSingle (hw.statements body) .ifThen guard) nofun
  | assembleIfElse s guard thenBody elseBody =>
    exact settles_assembleIfElse hw s guard thenBody elseBody
  | assembleWhile s guard body =>
    exact settles_assembleBody
      (fun _ ↦ Statement.assembles_assembleSingle (hw.statements body) .whileDo guard) nofun
  | assembleCall s name =>
    apply settles_of_done (run_assembleCall s name w) (w.labels_store s (.call name))
    simp [settled, Ledger.gains, Ledger.losses, Statement.labels_call, add_comm]
  | disassembleIf s into =>
    exact settles_disassembleBody (Statement.disassembles_single (hw.statements s) .ifThen) into
  | disassembleIfElse s intoThen intoElse =>
    exact settles_disassembleIfElse hw s intoThen intoElse
  | disassembleWhile s into =>
    exact settles_disassembleBody (Statement.disassembles_single (hw.statements s) .whileDo) into
  | disassembleCall s => exact settles_disassembleCall hw s
  | wrap s guard times => exact settles_wrap hw s guard times
  | decode s text => exact settles_receive (fun _ ↦ rfl) (w.labels_store s)
  | insert c name body => exact settles_insert w c name body
  | delete c name into => exact settles_delete w c name into
  | newContext c =>
    have hrun : run (.newContext c) w =
        (.done .nothing, { w with contexts := w.contexts.set c .empty }) := rfl
    apply settles_of_done hrun (w.labels_setContext c .empty)
    simp [settled, Ledger.gains, Ledger.losses]
  | newProgram p =>
    have hrun : run (.newProgram p) w =
        (.done .nothing, { w with programs := w.programs.set p .new }) := rfl
    apply settles_of_done hrun (w.labels_setProgram p .new)
    simp [settled, Ledger.gains, Ledger.losses]
  | setName p name =>
    let named := (w.programs.get p).setName name
    have hrun : run (.setName p name) w =
        (.done .nothing, { w with programs := w.programs.set p named }) := rfl
    apply settles_of_done hrun (w.labels_setProgram p named)
    rfl
  | swapContext p c =>
    apply settles_silently
    simpa [settled, Step.arguments, Ledger.gains, Ledger.losses] using balances_swapContext w p c
  | swapBody p s =>
    apply settles_silently
    simpa [settled, Step.arguments, Ledger.gains, Ledger.losses] using balances_swapBody hw p s
  | cloneProgram p into =>
    have hrun : run (.cloneProgram p into) w =
        (.done .nothing, { w with programs := w.programs.set into (w.programs.get p) }) := rfl
    apply settles_of_done hrun (w.labels_setProgram into (w.programs.get p))
    simp [settled, Ledger.gains, Ledger.losses, add_comm]
  | decodeProgram p text => exact settles_receive (fun _ ↦ rfl) (w.labels_setProgram p)

/-- A step turns the labels before it into those after it, up to its gains and losses. -/
theorem labels_run (hw : w.Sound) (step : Step) :
    (run step w).2.labels + (w.ledger step).losses = w.labels + (w.ledger step).gains := by
  have hsettles := settles_run hw step
  rw [Settles] at hsettles
  rw [ledger]
  generalize run step w = result at hsettles ⊢
  obtain ⟨outcome, after⟩ := result
  cases outcome with
  | done yield => exact hsettles
  | violated v => simpa [Ledger.gains, Ledger.losses] using hsettles
  | unread failure => simpa [Ledger.gains, Ledger.losses] using hsettles

/-- Both sides of a swap together hold what they held before. -/
theorem labels_swapContext (w : Workspace) (p c : String) :
    ((run (.swapContext p c) w).2.programs.get p).labels +
        ((run (.swapContext p c) w).2.contexts.get c).labels =
      (w.programs.get p).labels + (w.contexts.get c).labels := by
  have hswap := Program.balances_swapContext (w.programs.get p) (w.contexts.get c)
  rw [Balances] at hswap
  cases hrun : Program.swapContext (w.programs.get p, w.contexts.get c) with
  | ok _ pair =>
    rw [hrun] at hswap
    simpa [run, silently, perform, swapContext, hrun, Registers.get_set] using hswap
  | error v pair =>
    rw [hrun] at hswap
    simpa [run, silently, perform, swapContext, hrun, Registers.get_set] using hswap

theorem labels_swapBody (hw : w.Sound) (p s : String) :
    ((run (.swapBody p s) w).2.programs.get p).labels + (run (.swapBody p s) w).2.held s =
      (w.programs.get p).labels + w.held s := by
  have hswap := Program.balances_swapBody (w.programs.get p) (hw.statements s)
  rw [Balances] at hswap
  cases hrun : Program.swapBody (w.programs.get p, w.statements.get s) with
  | ok _ pair =>
    rw [hrun] at hswap
    simpa [run, silently, perform, swapBody, hrun, Registers.get_set, held] using hswap
  | error v pair =>
    rw [hrun] at hswap
    simpa [run, silently, perform, swapBody, hrun, Registers.get_set, held] using hswap

/-! ## Whole runs -/

/-- Along a run gains and losses add up, by induction over its steps. -/
theorem labels_runAll (hw : w.Sound) (steps : List Step) :
    (runAll w steps).labels + (w.ledgers steps).losses =
      w.labels + (w.ledgers steps).gains := by
  induction steps generalizing w with
  | nil => rfl
  | cons step steps ih =>
    -- The other steps settle their ledgers from the workspace that the first one leaves.
    let next := (run step w).2
    have hstep := labels_run hw step
    have hothers := ih (w := next) (steady_run step w hw).1
    calc (runAll next steps).labels + (w.ledger step + next.ledgers steps).losses
      _ = ((runAll next steps).labels + (next.ledgers steps).losses) + (w.ledger step).losses := by
        rw [Ledger.losses_add]
        abel
      _ = (next.labels + (w.ledger step).losses) + (next.ledgers steps).gains := by
        rw [hothers]
        abel
      _ = w.labels + (w.ledger step + next.ledgers steps).gains := by
        rw [hstep, Ledger.gains_add]
        abel

/-- Along every run from a sound workspace each step settles its ledger, whatever it comes to; a
swap conserves what a program and the other party hold together; and what is there at the end is
what was there at the start, with what was assembled, copied and decoded on the way, without what
was disassembled and discarded. -/
theorem labels_conserved_along_runs (w : Workspace) (hw : w.Sound) (steps : List Step) :
    let now := runAll w steps
    let total := w.ledgers steps
    (∀ step, (run step now).2.labels + (now.ledger step).losses =
      now.labels + (now.ledger step).gains) ∧
    (∀ p c, ((run (.swapContext p c) now).2.programs.get p).labels +
        ((run (.swapContext p c) now).2.contexts.get c).labels =
      (now.programs.get p).labels + (now.contexts.get c).labels) ∧
    (∀ p s, ((run (.swapBody p s) now).2.programs.get p).labels +
        ((run (.swapBody p s) now).2.statements.get s).labels =
      (now.programs.get p).labels + (now.statements.get s).labels) ∧
    now.labels + total.disassembled + total.discarded =
      w.labels + total.assembled + total.copied + total.decoded := by
  intro now total
  have hnow : now.Sound := sound_runAll hw steps
  refine ⟨labels_run hnow, labels_swapContext now, labels_swapBody hnow, ?_⟩
  calc now.labels + total.disassembled + total.discarded
    _ = now.labels + total.losses := by rw [Ledger.losses, add_assoc]
    _ = w.labels + total.gains := labels_runAll hw steps
    _ = w.labels + total.assembled + total.copied + total.decoded := by
      rw [Ledger.gains]
      abel

/-- A loop is copied and taken apart, its copy is lost to a construct that asks for a block, and its
body ends up in a program. -/
theorem labels_conserved_with_lost_copy :
    let go := Label.call ⟨"go", by decide⟩
    let loop : Statement := ⟨.node (.whileDo .random) [.node .block [.node go []]]⟩
    let w : Workspace := { statements := ⟨[("loop", loop)]⟩ }
    let steps : List Step := [.clone "loop" "copy", .disassembleWhile "loop" "body",
      .assembleIf "loop" .always "copy", .swapBody "p" "body"]
    w.Sound ∧ (w.ledgers steps).copied = {.whileDo .random, go} ∧
      (w.ledgers steps).disassembled = {.whileDo .random} ∧
      (w.ledgers steps).discarded = {.whileDo .random, go} ∧
      (runAll w steps).labels + {.whileDo .random} + {.whileDo .random, go} =
        w.labels + {.whileDo .random, go} := by
  intro go loop w steps
  have hw : w.Sound := by
    apply sound_of_supplied
    intro entry hentry
    obtain rfl := List.mem_singleton.mp hentry
    exact .checked (t := loop.tree) rfl
  have hcopied : (w.ledgers steps).copied = {.whileDo .random, go} := by decide
  have hdisassembled : (w.ledgers steps).disassembled = {.whileDo .random} := by decide
  have hdiscarded : (w.ledgers steps).discarded = {.whileDo .random, go} := by decide
  have hassembled : (w.ledgers steps).assembled = 0 := by decide
  have hdecoded : (w.ledgers steps).decoded = 0 := by decide
  have hconserved := (labels_conserved_along_runs w hw steps).2.2.2
  rw [hcopied, hdisassembled, hdiscarded, hassembled, hdecoded, add_zero, add_zero] at hconserved
  exact ⟨hw, hcopied, hdisassembled, hdiscarded, hconserved⟩

end Workspace

end BLTree

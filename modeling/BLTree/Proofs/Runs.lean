import BLTree.Proofs.Json.Results
import BLTree.Workspace.Basic

/-!
# Soundness along runs

A workspace is sound when all its statements, contexts and programs are. Every step keeps a sound
workspace sound, also a step that ends at a violated contract after it has taken its arguments out
of their registers, and no step of a sound workspace ends at an internal violation. By induction
this holds along every run from a store of statements that were new, accepted by the shape check or
decoded.
-/

namespace BLTree

open Edit

namespace Registers

variable {α β : Type}

theorem lookup_setEntry (name other : String) (a : α) (entries : List (String × α)) :
    (setEntry name a entries).lookup other =
      if other = name then some a else entries.lookup other := by
  by_cases hother : other = name
  · subst hother
    rw [if_pos rfl]
    induction entries with
    | nil => simp [setEntry]
    | cons entry others ih =>
      obtain ⟨key, value⟩ := entry
      by_cases hkey : key = other
      · simp [setEntry, hkey]
      · have hne : (other == key) = false := beq_false_of_ne fun h ↦ hkey h.symm
        simpa [setEntry, hkey, List.lookup_cons, hne] using ih
  · have hother' : (other == name) = false := beq_false_of_ne hother
    rw [if_neg hother]
    induction entries with
    | nil => simp [setEntry, List.lookup_cons, hother']
    | cons entry others ih =>
      obtain ⟨key, value⟩ := entry
      by_cases hkey : key = name
      · simp [setEntry, hkey, List.lookup_cons, hother']
      · simp [setEntry, hkey, List.lookup_cons, ih]

variable [Inhabited α]

/-- A register holds what was stored last, and the other registers are not touched. -/
theorem get_set (r : Registers α) (name other : String) (a : α) :
    (r.set name a).get other = if other = name then a else r.get other := by
  unfold get set
  rw [lookup_setEntry]
  split <;> rfl

/-- A register holds what was stored in it, or the default value. -/
theorem get_of_entries {P : α → Prop} {r : Registers α} (hdefault : P default)
    (h : ∀ entry ∈ r.entries, P entry.2) (name : String) : P (r.get name) := by
  unfold get
  cases hlookup : r.entries.lookup name with
  | none => exact hdefault
  | some a =>
    obtain ⟨front, back, hentries, -⟩ := List.lookup_eq_some_iff.mp hlookup
    exact h (name, a) (by simp [hentries])

theorem forall_get_set {P : α → Prop} {r : Registers α} (h : ∀ name, P (r.get name)) {a : α}
    (ha : P a) (name other : String) : P ((r.set name a).get other) := by
  rw [get_set]
  split
  · exact ha
  · exact h other

/-- Editing one register keeps a property of all of them. -/
theorem keeps_edit {P : α → Prop} {e : Edit α β} {post : β → Prop} (h : Keeps P e post)
    (name : String) : Keeps (fun r : Registers α ↦ ∀ name, P (r.get name)) (edit name e) post :=
  h.within (fun _ hr ↦ hr name) fun _ _ ha hr ↦ forall_get_set hr ha name

end Registers

namespace Workspace

structure Sound (w : Workspace) : Prop where
  statements : ∀ name, (w.statements.get name).Sound
  contexts : ∀ name, (w.contexts.get name).Sound
  programs : ∀ name, (w.programs.get name).Sound

/-- Editing one statement keeps the whole workspace sound. -/
theorem keeps_onStatement {α : Type} {e : Edit Statement α} {post : α → Prop}
    (h : Keeps Statement.Sound e post) (s : String) : Keeps Sound (onStatement s e) post :=
  (Registers.keeps_edit h s).within (fun _ hw ↦ hw.statements)
    fun _ _ hr hw ↦ ⟨hr, hw.contexts, hw.programs⟩

theorem keeps_takeStatement (s : String) : Keeps Sound (takeStatement s) Statement.Sound :=
  keeps_onStatement Statement.keeps_take s

/-- Moving statements out leaves empty blocks, so the workspace stays sound. -/
theorem keeps_takeStatements (names : List String) :
    Keeps Sound (takeStatements names) fun members ↦ ∀ member ∈ members, member.Sound := by
  induction names with
  | nil => exact keeps_pure nofun
  | cons s others ih =>
    apply (keeps_takeStatement s).bind
    intro member hmember
    apply ih.bind
    intro members hmembers
    exact keeps_pure (List.forall_mem_cons.mpr ⟨hmember, hmembers⟩)

/-- An operation whose argument is taken out of its register first. -/
theorem keeps_onStatement_taking {α : Type} {e : Statement → Edit Statement α} {post : α → Prop}
    (h : ∀ value, value.Sound → Keeps Statement.Sound (e value) post) (argument s : String) :
    Keeps Sound (takeStatement argument >>= fun value ↦ onStatement s (e value)) post := by
  apply (keeps_takeStatement argument).bind
  intro value hvalue
  exact keeps_onStatement (h value hvalue) s

/-- A refused body is lost, but the statement that is left is sound. -/
theorem keeps_wrap (guard : Condition) : Keeps Statement.Sound (wrap guard) fun _ ↦ True := by
  apply Statement.keeps_take.bind
  intro body hbody
  have hloop := Statement.keeps_assembleSingle .whileDo guard hbody
  apply (hloop.check_build Statement.sound_emptyBlock).bind
  intro loop hloop
  exact Statement.keeps_addToBlock 0 hloop

theorem keeps_wrapTimes (guard : Condition) (times : Nat) :
    Keeps Statement.Sound (wrapTimes guard times) fun _ ↦ True := by
  induction times with
  | zero => exact keeps_pure trivial
  | succ times ih =>
    apply (keeps_wrap guard).bind
    intro _ _
    exact ih

theorem keeps_putStatement (s : String) {value : Statement} (h : value.Sound) :
    Keeps Sound (putStatement s value) fun _ ↦ True :=
  keeps_modify fun _ hw ↦
    ⟨Registers.forall_get_set hw.statements h s, hw.contexts, hw.programs⟩

theorem keeps_putContext (c : String) {value : Context} (h : value.Sound) :
    Keeps Sound (putContext c value) fun _ ↦ True :=
  keeps_modify fun _ hw ↦
    ⟨hw.statements, Registers.forall_get_set hw.contexts h c, hw.programs⟩

theorem keeps_putProgram (p : String) {value : Program} (h : value.Sound) :
    Keeps Sound (putProgram p value) fun _ ↦ True :=
  keeps_modify fun _ hw ↦
    ⟨hw.statements, hw.contexts, Registers.forall_get_set hw.programs h p⟩

/-- Both sides of a swap stay sound, also if it is refused. -/
theorem keeps_swapContext (p c : String) : Keeps Sound (swapContext p c) fun _ ↦ True :=
  Program.keeps_swapContext.within (fun _ hw ↦ ⟨hw.programs p, hw.contexts c⟩)
    fun _ _ hparts hw ↦ ⟨hw.statements, Registers.forall_get_set hw.contexts hparts.2 c,
      Registers.forall_get_set hw.programs hparts.1 p⟩

theorem keeps_swapBody (p s : String) : Keeps Sound (swapBody p s) fun _ ↦ True :=
  Program.keeps_swapBody.within (fun _ hw ↦ ⟨hw.programs p, hw.statements s⟩)
    fun _ _ hparts hw ↦ ⟨Registers.forall_get_set hw.statements hparts.2 s, hw.contexts,
      Registers.forall_get_set hw.programs hparts.1 p⟩

/-! ## One step -/

/-- A step that keeps sound workspaces sound and does not end at an internal violation. -/
def Steady (f : Workspace → Outcome × Workspace) : Prop :=
  ∀ w, w.Sound → (f w).2.Sound ∧ ∀ v, (f w).1 = .violated v → v.isInternal = false

/-- A step is steady if the edit that it performs keeps workspaces sound. -/
theorem steady_perform {e : Edit Workspace Yield} (h : Keeps Sound e fun _ ↦ True) :
    Steady (perform e) := by
  intro w hw
  have hrun := h w hw
  unfold perform
  cases hres : e w with
  | ok yield w' =>
    rw [hres] at hrun
    exact ⟨hrun.2, nofun⟩
  | error v w' =>
    rw [hres] at hrun
    refine ⟨hrun.2, ?_⟩
    intro other hother
    cases hother
    exact hrun.1

theorem steady_silently {e : Edit Workspace Unit} (h : Keeps Sound e fun _ ↦ True) :
    Steady (silently e) := by
  apply steady_perform
  apply h.bind
  intro _ _
  exact keeps_pure trivial

/-- Decoded values are sound, and a text that is refused changes nothing. -/
theorem steady_receive {α : Type} {value : Except Json.Failure α} {put : α → Edit Workspace Unit}
    (h : ∀ a, value = .ok a → Keeps Sound (put a) fun _ ↦ True) : Steady (receive value put) := by
  cases value with
  | ok a => exact steady_silently (h a rfl)
  | error failure =>
    intro w hw
    exact ⟨hw, nofun⟩

/-- The step that assembles a construct with one body. -/
theorem steady_assembleSingle (construct : Statement.Single) (s : String) (guard : Condition)
    (body : String) :
    Steady (silently do
      let body ← takeStatement body
      onStatement s (Statement.assembleSingle construct guard body)) := by
  apply steady_silently
  exact keeps_onStatement_taking (fun _ h ↦ Statement.keeps_assembleSingle construct guard h) body s

/-- The step that takes a construct with one body apart. -/
theorem steady_disassembleSingle (construct : Statement.Single) (s into : String) :
    Steady (perform do
      let (guard, body) ← onStatement s (Statement.disassembleSingle construct)
      putStatement into body
      return .condition guard) := by
  have hkeeps := (Statement.takesApart_single construct).keeps construct.isInternal_receiverOther
  apply steady_perform
  apply (keeps_onStatement hkeeps s).bind
  intro parts hbody
  apply (keeps_putStatement into hbody.1).bind
  intro _ _
  exact keeps_pure trivial

theorem steady_disassembleIfElse (s intoThen intoElse : String) :
    Steady (run (.disassembleIfElse s intoThen intoElse)) := by
  apply steady_perform
  apply (keeps_onStatement (Statement.takesApart_ifElse.keeps rfl) s).bind
  intro parts hbodies
  apply (keeps_putStatement intoThen hbodies.1.1).bind
  intro _ _
  apply (keeps_putStatement intoElse hbodies.2.1).bind
  intro _ _
  exact keeps_pure trivial

/-- A refused member loses all arguments, but the receiver is kept. -/
theorem steady_block (s : String) (members : List String) : Steady (run (.block s members)) := by
  apply steady_silently
  apply (keeps_takeStatements members).bind
  intro values hvalues
  have hmembers := Statement.keeps_addFrom 0 hvalues
  apply (hmembers.check_build Statement.sound_emptyBlock).bind
  intro built hbuilt
  exact keeps_putStatement s hbuilt

theorem steady_insert (c : String) (name : Identifier) (body : String) :
    Steady (run (.insert c name body)) := by
  apply steady_perform
  apply (keeps_takeStatement body).bind
  intro value hvalue
  apply keeps_get.bind
  intro w hw
  apply (keeps_putContext c ((hw.contexts c).insert name hvalue)).bind
  intro _ _
  exact keeps_pure trivial

theorem steady_delete (c name into : String) : Steady (run (.delete c name into)) := by
  apply steady_perform
  apply keeps_get.bind
  intro w hw
  dsimp only
  split
  · rename_i body hbody
    apply (keeps_putContext c ((hw.contexts c).erase name)).bind
    intro _ _
    apply (keeps_putStatement into ((hw.contexts c).get? hbody)).bind
    intro _ _
    exact keeps_pure trivial
  · exact keeps_pure trivial

/-- Every step is steady, one case for each. -/
theorem steady_run (step : Step) : Steady (run step) := by
  cases step with
  | new s => exact steady_silently (keeps_putStatement s Statement.sound_emptyBlock)
  | call s name => exact steady_silently (keeps_putStatement s (Statement.sound_call name))
  | block s members => exact steady_block s members
  | take s into =>
    apply steady_silently
    apply (keeps_takeStatement s).bind
    intro value hvalue
    exact keeps_putStatement into hvalue
  | clear s => exact steady_silently (keeps_onStatement Statement.keeps_clear s)
  | clone s into =>
    apply steady_silently
    apply keeps_get.bind
    intro w hw
    exact keeps_putStatement into (hw.statements s)
  | add s position member =>
    apply steady_silently
    exact keeps_onStatement_taking (fun _ h ↦ Statement.keeps_addToBlock position h) member s
  | remove s position into =>
    apply steady_silently
    apply (keeps_onStatement (Statement.keeps_removeFromBlock position) s).bind
    intro member hmember
    exact keeps_putStatement into hmember
  | assembleIf s guard body => exact steady_assembleSingle .ifThen s guard body
  | assembleIfElse s guard thenBody elseBody =>
    apply steady_silently
    apply (keeps_takeStatement thenBody).bind
    intro value hthen
    exact keeps_onStatement_taking (fun _ helse ↦ Statement.keeps_assembleIfElse guard hthen helse)
      elseBody s
  | assembleWhile s guard body => exact steady_assembleSingle .whileDo s guard body
  | assembleCall s name =>
    exact steady_silently (keeps_onStatement (Statement.keeps_assembleCall name) s)
  | disassembleIf s into => exact steady_disassembleSingle .ifThen s into
  | disassembleIfElse s intoThen intoElse => exact steady_disassembleIfElse s intoThen intoElse
  | disassembleWhile s into => exact steady_disassembleSingle .whileDo s into
  | disassembleCall s =>
    apply steady_perform
    apply (keeps_onStatement (Statement.takesApart_call.keeps rfl) s).bind
    intro _ _
    exact keeps_pure trivial
  | wrap s guard times =>
    exact steady_silently (keeps_onStatement (keeps_wrapTimes guard times) s)
  | decode s text =>
    apply steady_receive
    intro value hdecode
    exact keeps_putStatement s (Json.decode_gives Statement.gives_reader hdecode)
  | insert c name body => exact steady_insert c name body
  | delete c name into => exact steady_delete c name into
  | newContext c => exact steady_silently (keeps_putContext c Context.sound_empty)
  | newProgram p => exact steady_silently (keeps_putProgram p Program.sound_new)
  | setName p name =>
    apply steady_silently
    apply keeps_get.bind
    intro w hw
    exact keeps_putProgram p ((hw.programs p).setName name)
  | swapContext p c => exact steady_silently (keeps_swapContext p c)
  | swapBody p s => exact steady_silently (keeps_swapBody p s)
  | cloneProgram p into =>
    apply steady_silently
    apply keeps_get.bind
    intro w hw
    exact keeps_putProgram into (hw.programs p)
  | decodeProgram p text =>
    apply steady_receive
    intro value hdecode
    exact keeps_putProgram p (Json.decode_gives Program.gives_reader hdecode)

/-! ## Whole runs -/

end Workspace

/-- Where the statements that a store starts with may come from. -/
inductive Statement.Supplied : Statement → Prop
  | new : Supplied .emptyBlock
  | checked {t : Tree Label} {s : Statement} (h : ofTree t = .ok s) : Supplied s
  | decoded {text : String} {s : Statement} (h : Json.decode Statement.reader text = .ok s) :
    Supplied s

theorem Statement.Supplied.sound {s : Statement} (h : s.Supplied) : s.Sound := by
  cases h with
  | new => exact sound_emptyBlock
  | checked h =>
    obtain ⟨hshape, rfl⟩ := ofTree_eq_ok_iff.mp h
    exact hshape
  | decoded h => exact Json.decode_gives gives_reader h

namespace Workspace

theorem sound_of_supplied {registers : Registers Statement}
    (h : ∀ entry ∈ registers.entries, entry.2.Supplied) : Sound { statements := registers } where
  statements := Registers.get_of_entries Statement.sound_emptyBlock fun entry hentry ↦
    (h entry hentry).sound
  contexts _ := Context.sound_empty
  programs _ := Program.sound_new

/-- Soundness is kept along every run, by induction over its steps. -/
theorem sound_runAll {w : Workspace} (hw : w.Sound) (steps : List Step) :
    (runAll w steps).Sound := by
  induction steps generalizing w with
  | nil => exact hw
  | cons step steps ih => exact ih (steady_run step w hw).1

/-- After every run from a store of supplied statements, each register holds a well-shaped
statement, which the shape check accepts as it is, and no further step can end at an internal
violation. -/
theorem statements_sound_along_runs (registers : Registers Statement)
    (hsupplied : ∀ entry ∈ registers.entries, entry.2.Supplied) (steps : List Step) :
    (∀ name, let s := (runAll { statements := registers } steps).statements.get name
      Statement.ofTree s.tree = .ok s ∧ Statement.WellShaped s.tree) ∧
    ∀ step v, (run step (runAll { statements := registers } steps)).1 = .violated v →
      v.isInternal = false := by
  have hsound := sound_runAll (sound_of_supplied hsupplied) steps
  constructor
  · intro name
    exact ⟨Statement.sound_iff_ofTree.mp (hsound.statements name), hsound.statements name⟩
  · intro step v hviolated
    exact (steady_run step _ hsound).2 v hviolated

/-- A store with a loop, run through a step that takes the loop apart, one that violates its
contract and loses its argument, and one that builds on what is left. -/
theorem statements_sound_after_lost_argument :
    (∀ entry ∈ [("loop", (⟨.node (.whileDo .random) [.node .block []]⟩ : Statement))],
      entry.2.Supplied) ∧
    let w := runAll { statements := ⟨[("loop", ⟨.node (.whileDo .random) [.node .block []]⟩)]⟩ }
      [.disassembleWhile "loop" "body", .add "loop" 0 "body", .assembleIf "loop" .always "body"]
    (∀ name, Statement.ofTree (w.statements.get name).tree = .ok (w.statements.get name) ∧
      Statement.WellShaped (w.statements.get name).tree) ∧
    ∀ step v, (run step w).1 = .violated v → v.isInternal = false := by
  have hsupplied : ∀ entry ∈ [("loop", (⟨.node (.whileDo .random) [.node .block []]⟩ : Statement))],
      entry.2.Supplied := by
    intro entry hentry
    obtain rfl := List.mem_singleton.mp hentry
    exact .checked (t := .node (.whileDo .random) [.node .block []]) rfl
  exact ⟨hsupplied, statements_sound_along_runs ⟨_⟩ hsupplied _⟩

end Workspace

/-- A statement that some run leaves in some register. -/
def Statement.Reachable (s : Statement) : Prop :=
  ∃ (registers : Registers Statement) (steps : List Workspace.Step) (name : String),
    (∀ entry ∈ registers.entries, entry.2.Supplied) ∧
      s = (Workspace.runAll { statements := registers } steps).statements.get name

/-- What a run can lead to is sound. -/
theorem Statement.Reachable.sound {s : Statement} (h : s.Reachable) : s.Sound := by
  obtain ⟨registers, steps, name, hsupplied, rfl⟩ := h
  exact (Workspace.sound_runAll (Workspace.sound_of_supplied hsupplied) steps).statements name

/-- A run of no steps leaves what the shape check let in. -/
theorem Statement.Sound.reachable {s : Statement} (h : s.Sound) : s.Reachable := by
  have hsupplied : ∀ entry ∈ [("s", s)], entry.2.Supplied := by
    intro entry hentry
    obtain rfl := List.mem_singleton.mp hentry
    exact .checked (sound_iff_ofTree.mp h)
  exact ⟨⟨[("s", s)]⟩, [], "s", hsupplied, rfl⟩

end BLTree

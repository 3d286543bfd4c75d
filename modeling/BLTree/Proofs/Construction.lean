import BLTree.Proofs.Grammar
import BLTree.Proofs.Runs

/-!
# Every statement can be constructed

The kernel is complete: each tree that the shape check accepts is the result of a script that starts
from empty blocks, uses only assembling steps and additions to blocks, and violates no contract. The
script follows the derivation of the tree. It builds a phrase on a shelf with a number, uses the
shelves with greater numbers for the parts and leaves those with smaller numbers alone, so that
scripts for parts can be put one after the other.
-/

namespace BLTree

open Edit Statement

namespace Workspace

/-- The steps that put statements together; none of them takes anything apart. -/
def Step.isConstructive : Step → Bool
  | .new _ | .assembleCall .. | .assembleIf .. | .assembleIfElse .. | .assembleWhile .. => true
  | .add .. => true
  | _ => false

/-- The workspace with another value in a register for statements. -/
def store (w : Workspace) (s : String) (value : Statement) : Workspace :=
  { w with statements := w.statements.set s value }

theorem get_store (w : Workspace) (s other : String) (value : Statement) :
    (w.store s value).statements.get other =
      if other = s then value else w.statements.get other :=
  Registers.get_set ..

theorem takeStatement_apply (s : String) (w : Workspace) :
    takeStatement s w = .ok (w.statements.get s) (w.store s .emptyBlock) := rfl

theorem onStatement_ok {α : Type} {e : Edit Statement α} {w : Workspace} {s : String} {a : α}
    {after : Statement} (h : e (w.statements.get s) = .ok a after) :
    onStatement s e w = .ok a (w.store s after) := by
  simp [onStatement, Registers.edit, h, store]

theorem silently_ok {e : Edit Workspace Unit} {w after : Workspace} (h : e w = .ok () after) :
    silently e w = (.done .nothing, after) := by
  simp [silently, perform, h]

theorem run_new (s : String) (w : Workspace) :
    run (.new s) w = (.done .nothing, w.store s .emptyBlock) := rfl

theorem run_assembleCall (s : String) (name : Identifier) (w : Workspace) :
    run (.assembleCall s name) w = (.done .nothing, w.store s (.call name)) := rfl

variable {w : Workspace} {s : String}

/-- A member is moved out of its register, so the receiver has to be another one. -/
theorem run_add {position : Nat} {member : String} {label : Label}
    {members children : List (Tree Label)} (hne : s ≠ member)
    (hreceiver : w.statements.get s = ⟨.node .block members⟩)
    (hposition : position ≤ members.length)
    (hmember : w.statements.get member = ⟨.node label children⟩) (hlabel : label.kind ≠ .block) :
    run (.add s position member) w = (.done .nothing, (w.store member .emptyBlock).store s
      ⟨.node .block (members.insertIdx position (.node label children))⟩) := by
  apply silently_ok
  rw [bind_apply, takeStatement_apply, hmember]
  apply onStatement_ok
  have hblock : Label.block.kind = .block := rfl
  rw [get_store, if_neg hne, hreceiver, addToBlock_node, if_pos hblock, if_pos hposition,
    if_neg hlabel]

/-- The step that assembles a construct with one body. -/
theorem run_assembleSingle (construct : Single) (guard : Condition) {body : String}
    {members : List (Tree Label)} (hbody : w.statements.get body = ⟨.node .block members⟩) :
    silently (takeStatement body >>= fun body ↦ onStatement s (assembleSingle construct guard body))
        w =
      (.done .nothing, (w.store body .emptyBlock).store s
        ⟨.node (construct.label guard) [.node .block members]⟩) := by
  apply silently_ok
  rw [bind_apply, takeStatement_apply, hbody]
  exact onStatement_ok rfl

/-- Both bodies are moved out of their registers, so these have to be different. -/
theorem run_assembleIfElse (guard : Condition) {thenBody elseBody : String}
    {thenMembers elseMembers : List (Tree Label)} (hne : elseBody ≠ thenBody)
    (hthen : w.statements.get thenBody = ⟨.node .block thenMembers⟩)
    (helse : w.statements.get elseBody = ⟨.node .block elseMembers⟩) :
    run (.assembleIfElse s guard thenBody elseBody) w =
      (.done .nothing, ((w.store thenBody .emptyBlock).store elseBody .emptyBlock).store s
        ⟨.node (.ifElse guard) [.node .block thenMembers, .node .block elseMembers]⟩) := by
  apply silently_ok
  rw [bind_apply, takeStatement_apply, hthen]
  dsimp only
  rw [bind_apply, takeStatement_apply, get_store, if_neg hne, helse]
  exact onStatement_ok rfl

/-- Every step of the run puts statements together and is done without a violation. -/
def Constructive : Workspace → List Step → Prop
  | _, [] => True
  | w, step :: steps => step.isConstructive = true ∧ (∃ yield, (run step w).1 = .done yield) ∧
    Constructive (run step w).2 steps

/-- Runs one after the other are one run. -/
theorem runAll_append (w : Workspace) (first second : List Step) :
    runAll w (first ++ second) = runAll (runAll w first) second :=
  List.foldl_append

theorem Constructive.append {first second : List Step} (hfirst : Constructive w first)
    (hsecond : Constructive (runAll w first) second) : Constructive w (first ++ second) := by
  induction first generalizing w with
  | nil => exact hsecond
  | cons step steps ih =>
    obtain ⟨hstep, hdone, hsteps⟩ := hfirst
    exact ⟨hstep, hdone, ih hsteps hsecond⟩

end Workspace

open Workspace

namespace Grammar

/-- The name of a register, by number. -/
def shelf (n : Nat) : String := String.ofList (List.replicate n '*')

/-- Different numbers name different registers. -/
theorem shelf_ne {m n : Nat} (h : m ≠ n) : shelf m ≠ shelf n := by
  intro hshelf
  have hlength := congrArg (fun name : String ↦ name.toList.length) hshelf
  simp only [shelf, String.toList_ofList, List.length_replicate] at hlength
  exact h hlength

mutual

def Block.script (n : Nat) : Block → List Step
  | .block members => [.new (shelf n)] ++ Instruction.memberScript n 0 members

def Instruction.script (n : Nat) : Instruction → List Step
  | .ifThen guard body =>
    body.script (n + 1) ++ [.assembleIf (shelf n) guard (shelf (n + 1))]
  | .ifElse guard thenBody elseBody =>
    thenBody.script (n + 1) ++ elseBody.script (n + 2) ++
      [.assembleIfElse (shelf n) guard (shelf (n + 1)) (shelf (n + 2))]
  | .whileDo guard body =>
    body.script (n + 1) ++ [.assembleWhile (shelf n) guard (shelf (n + 1))]
  | .call name => [.assembleCall (shelf n) name]

/-- Adds instructions to the block on a shelf, the first of them at `position`. -/
def Instruction.memberScript (n position : Nat) : List Instruction → List Step
  | [] => []
  | i :: others =>
    i.script (n + 1) ++ [.add (shelf n) position (shelf (n + 1))] ++
      Instruction.memberScript n (position + 1) others

end

def Phrase.script : Phrase → List Step
  | .block b => b.script 0
  | .instruction i => i.script 0

/-! ## What scripts leave behind -/

/-- The script is constructive, leaves the tree on its shelf and does not touch the shelves
below. -/
structure Built (n : Nat) (t : Tree Label) (steps : List Step) (w : Workspace) : Prop where
  constructive : Constructive w steps
  result : (runAll w steps).statements.get (shelf n) = ⟨t⟩
  below : ∀ m, m < n → (runAll w steps).statements.get (shelf m) = w.statements.get (shelf m)

variable {n : Nat} {t : Tree Label} {w : Workspace}

/-- A script is built if its last step leaves the tree on its shelf and the shelves below alone. -/
theorem Built.of_last (steps : List Step) {step : Step} {after : Workspace} {yield : Yield}
    (hsteps : Constructive w steps) (hstep : step.isConstructive = true)
    (hrun : run step (runAll w steps) = (.done yield, after))
    (hresult : after.statements.get (shelf n) = ⟨t⟩)
    (hbelow : ∀ m, m < n → after.statements.get (shelf m) = w.statements.get (shelf m)) :
    Built n t (steps ++ [step]) w := by
  have hlast : Constructive (runAll w steps) [step] :=
    ⟨hstep, ⟨yield, congrArg Prod.fst hrun⟩, trivial⟩
  have hafter : runAll w (steps ++ [step]) = after := by
    rw [runAll_append]
    exact congrArg Prod.snd hrun
  constructor
  · exact hsteps.append hlast
  · rw [hafter]
    exact hresult
  · rw [hafter]
    exact hbelow

/-- A script may go on with what another has left on the same shelf. -/
theorem Built.append {first second : List Step} {u : Tree Label} (hfirst : Built n u first w)
    (hsecond : Built n t second (runAll w first)) : Built n t (first ++ second) w := by
  constructor
  · exact hfirst.constructive.append hsecond.constructive
  · rw [runAll_append]
    exact hsecond.result
  · intro m hm
    rw [runAll_append]
    calc
      (runAll (runAll w first) second).statements.get (shelf m) =
          (runAll w first).statements.get (shelf m) := hsecond.below m hm
      _ = w.statements.get (shelf m) := hfirst.below m hm

/-- Storing on a shelf does not touch the shelves with other numbers. -/
theorem get_store_shelf_of_ne {m : Nat} (h : m ≠ n) (value : Statement) :
    (w.store (shelf n) value).statements.get (shelf m) = w.statements.get (shelf m) := by
  rw [get_store, if_neg (shelf_ne h)]

theorem get_store_shelf (value : Statement) :
    (w.store (shelf n) value).statements.get (shelf n) = value := by
  rw [get_store, if_pos rfl]

/-- What is taken from the next shelf and put on this one leaves the shelves below alone. -/
theorem get_takenOver_below {m : Nat} (hm : m < n) (value : Statement) :
    ((w.store (shelf (n + 1)) .emptyBlock).store (shelf n) value).statements.get (shelf m) =
      w.statements.get (shelf m) := by
  calc
    ((w.store (shelf (n + 1)) .emptyBlock).store (shelf n) value).statements.get (shelf m) =
        (w.store (shelf (n + 1)) .emptyBlock).statements.get (shelf m) :=
      get_store_shelf_of_ne (by omega) value
    _ = w.statements.get (shelf m) := get_store_shelf_of_ne (by omega) .emptyBlock

theorem Block.exists_tree_eq (b : Block) : ∃ members, b.tree = .node .block members := by
  cases b
  exact ⟨_, rfl⟩

theorem Instruction.exists_tree_eq (i : Instruction) :
    ∃ label children, i.tree = .node label children ∧ label.kind ≠ .block := by
  obtain ⟨label, children, htree⟩ := i.wellShaped_tree.exists_node
  have hnot := i.not_isBlock_tree
  rw [htree, isBlock_node] at hnot
  exact ⟨label, children, htree, hnot⟩

/-- A guarded construct with one body: the body is built one shelf higher and then taken over. -/
theorem built_single {label : Label} {body : Block} {step : Step}
    (hstep : step.isConstructive = true) (hbody : Built (n + 1) body.tree (body.script (n + 1)) w)
    (hrun : ∀ w members, w.statements.get (shelf (n + 1)) = ⟨.node .block members⟩ →
      run step w = (.done .nothing, (w.store (shelf (n + 1)) .emptyBlock).store (shelf n)
        ⟨.node label [.node .block members]⟩)) :
    Built n (.node label [body.tree]) (body.script (n + 1) ++ [step]) w := by
  obtain ⟨members, hmembers⟩ := body.exists_tree_eq
  rw [hmembers] at hbody ⊢
  apply Built.of_last _ hbody.constructive hstep (hrun _ members hbody.result)
  · exact get_store_shelf _
  · intro m hm
    rw [get_takenOver_below hm]
    exact hbody.below m (by omega)

/-- The bodies are built on two shelves above, the second after the first. -/
theorem built_ifElse (guard : Condition) {thenBody elseBody : Block}
    (hthen : Built (n + 1) thenBody.tree (thenBody.script (n + 1)) w)
    (helse : Built (n + 2) elseBody.tree (elseBody.script (n + 2))
      (runAll w (thenBody.script (n + 1)))) :
    Built n (.node (.ifElse guard) [thenBody.tree, elseBody.tree])
      (thenBody.script (n + 1) ++ elseBody.script (n + 2) ++
        [.assembleIfElse (shelf n) guard (shelf (n + 1)) (shelf (n + 2))]) w := by
  -- The second body is built above the first, so the first is still where it was.
  have hkept : (runAll (runAll w (thenBody.script (n + 1)))
      (elseBody.script (n + 2))).statements.get (shelf (n + 1)) = ⟨thenBody.tree⟩ := by
    rw [helse.below (n + 1) (by omega)]
    exact hthen.result
  have hresult := helse.result
  obtain ⟨thenMembers, hthenTree⟩ := thenBody.exists_tree_eq
  obtain ⟨elseMembers, helseTree⟩ := elseBody.exists_tree_eq
  rw [hthenTree] at hkept ⊢
  rw [helseTree] at hresult ⊢
  have hrun := run_assembleIfElse (s := shelf n) guard (shelf_ne (by omega)) hkept hresult
  rw [← runAll_append] at hrun
  apply Built.of_last _ (hthen.constructive.append helse.constructive) rfl hrun
  · exact get_store_shelf _
  · intro m hm
    rw [get_store_shelf_of_ne (by omega), get_store_shelf_of_ne (by omega),
      get_store_shelf_of_ne (by omega), runAll_append, helse.below m (by omega),
      hthen.below m (by omega)]

/-- A member is built on the shelf above and then moved behind the members that are there. -/
theorem built_member {i : Instruction} {done : List (Tree Label)}
    (hmember : Built (n + 1) i.tree (i.script (n + 1)) w)
    (hdone : w.statements.get (shelf n) = ⟨.node .block done⟩) :
    Built n (.node .block (done ++ [i.tree]))
      (i.script (n + 1) ++ [.add (shelf n) done.length (shelf (n + 1))]) w := by
  have hkept : (runAll w (i.script (n + 1))).statements.get (shelf n) = ⟨.node .block done⟩ := by
    rw [hmember.below n (by omega)]
    exact hdone
  have hresult := hmember.result
  obtain ⟨label, children, htree, hlabel⟩ := i.exists_tree_eq
  rw [htree] at hresult ⊢
  have hrun := run_add (shelf_ne (by omega)) hkept (Nat.le_refl _) hresult hlabel
  rw [List.insertIdx_length_self] at hrun
  apply Built.of_last _ hmember.constructive rfl hrun
  · exact get_store_shelf _
  · intro m hm
    rw [get_takenOver_below hm]
    exact hmember.below m (by omega)

mutual

/-- The script of a block builds it on any shelf of any workspace, by recursion over the grammar. -/
theorem Block.built_script : ∀ (b : Block) (n : Nat) (w : Workspace), Built n b.tree (b.script n) w
  | .block members, n, w => by
    have hnew : Built n (.node .block []) ([] ++ [.new (shelf n)]) w :=
      .of_last [] trivial rfl (run_new (shelf n) w) (get_store_shelf _)
        fun m hm ↦ get_store_shelf_of_ne (by omega) _
    exact hnew.append (Instruction.built_memberScript members n [] _ hnew.result)

theorem Instruction.built_script : ∀ (i : Instruction) (n : Nat) (w : Workspace),
    Built n i.tree (i.script n) w
  | .ifThen guard body, n, w =>
    built_single rfl (body.built_script (n + 1) w) fun _ _ h ↦ run_assembleSingle .ifThen guard h
  | .ifElse guard thenBody elseBody, n, w =>
    built_ifElse guard (thenBody.built_script (n + 1) w) (elseBody.built_script (n + 2) _)
  | .whileDo guard body, n, w =>
    built_single rfl (body.built_script (n + 1) w) fun _ _ h ↦ run_assembleSingle .whileDo guard h
  | .call name, n, w =>
    .of_last [] trivial rfl (run_assembleCall (shelf n) name w) (get_store_shelf _)
      fun m hm ↦ get_store_shelf_of_ne (by omega) _

/-- The members that are already in the block stay in front of those that the script adds. -/
theorem Instruction.built_memberScript : ∀ (members : List Instruction) (n : Nat)
    (done : List (Tree Label)) (w : Workspace), w.statements.get (shelf n) = ⟨.node .block done⟩ →
    Built n (.node .block (done ++ Instruction.trees members))
      (Instruction.memberScript n done.length members) w
  | [], n, done, w, hdone => by
    rw [Instruction.trees, List.append_nil]
    exact ⟨trivial, hdone, fun _ _ ↦ rfl⟩
  | i :: others, n, done, w, hdone => by
    have hmember := built_member (i.built_script (n + 1) w) hdone
    have hothers := Instruction.built_memberScript others n (done ++ [i.tree]) _ hmember.result
    rw [List.length_append, List.length_singleton, List.append_assoc] at hothers
    exact hmember.append hothers

end

theorem Phrase.built_script (p : Phrase) (w : Workspace) : Built 0 p.tree p.script w := by
  cases p with
  | block b => exact b.built_script 0 w
  | instruction i => exact i.built_script 0 w

end Grammar

/-! ## Completeness -/

/-- A tree that some constructive run from empty blocks leaves in some register. -/
def Statement.Constructible (t : Tree Label) : Prop :=
  ∃ (steps : List Step) (name : String),
    Constructive {} steps ∧ ((runAll {} steps).statements.get name).tree = t

/-- Every well-shaped tree is derived from the grammar, and its derivation has a script. -/
theorem Statement.constructible_of_wellShaped {t : Tree Label} (h : WellShaped t) :
    Constructible t := by
  obtain ⟨p, rfl⟩ := Grammar.wellShaped_iff_exists_phrase.mp h
  have hbuilt := p.built_script {}
  exact ⟨p.script, Grammar.shelf 0, hbuilt.constructive, by rw [hbuilt.result]⟩

theorem Statement.wellShaped_of_constructible {t : Tree Label} (h : Constructible t) :
    WellShaped t := by
  obtain ⟨steps, name, -, rfl⟩ := h
  exact (sound_runAll (@sound_of_supplied {} nofun) steps).statements name

/-- The shape check accepts exactly the trees that can be constructed, and nothing else is
decoded. -/
theorem Statement.kernel_constructs_accepted_trees :
    (∀ t, (∃ s, ofTree t = .ok s) ↔ Constructible t) ∧
      ∀ text s, Json.decode Statement.reader text = .ok s → Constructible s.tree := by
  constructor
  · intro t
    constructor
    · intro h
      rcases h with ⟨s, hs⟩
      exact constructible_of_wellShaped (ofTree_eq_ok_iff.mp hs).1
    · intro h
      have hshape := wellShaped_of_constructible h
      exact ⟨⟨t⟩, ofTree_eq_ok_iff.mpr ⟨hshape, rfl⟩⟩
  · intro text s hdecode
    have hsound : s.Sound := Json.decode_gives gives_reader hdecode
    exact constructible_of_wellShaped hsound

end BLTree

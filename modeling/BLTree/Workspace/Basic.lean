import BLTree.Load
import BLTree.Statement.Kernel
import BLTree.Workspace.Registers

/-!
# Workspaces

Statements, contexts and programs in registers, and the steps that a script is made of. A statement
that a step hands to an operation is taken out of its register first and is lost if the operation
then violates its contract. A violated contract or an unreadable text ends the step, not the script.
-/

namespace BLTree

structure Workspace where
  statements : Registers Statement := {}
  contexts : Registers Context := {}
  programs : Registers Program := {}

namespace Workspace

/-- One step of a script; the names are those of registers. -/
inductive Step where
  | new (s : String)
  | call (s : String) (name : Identifier)
  | block (s : String) (members : List String)
  | take (s into : String)
  | clear (s : String)
  | clone (s into : String)
  | add (s : String) (position : Nat) (member : String)
  | remove (s : String) (position : Nat) (into : String)
  | assembleIf (s : String) (guard : Condition) (body : String)
  | assembleIfElse (s : String) (guard : Condition) (thenBody elseBody : String)
  | assembleWhile (s : String) (guard : Condition) (body : String)
  | assembleCall (s : String) (name : Identifier)
  | disassembleIf (s into : String)
  | disassembleIfElse (s intoThen intoElse : String)
  | disassembleWhile (s into : String)
  | disassembleCall (s : String)
  | wrap (s : String) (guard : Condition) (times : Nat)
  | decode (s text : String)
  | insert (c : String) (name : Identifier) (body : String)
  | delete (c name into : String)
  | newContext (c : String)
  | newProgram (p : String)
  | setName (p : String) (name : Identifier)
  | swapContext (p c : String)
  | swapBody (p s : String)
  | cloneProgram (p into : String)
  | decodeProgram (p text : String)

/-- What a step gives back. -/
inductive Yield where
  | nothing
  | condition (c : Condition)
  | name (n : Identifier)
  | flag (b : Bool)
  | replaced (s : Option Statement)

inductive Outcome where
  | done (yield : Yield)
  | violated (v : Violation)
  | unread (failure : Json.Failure)

def onStatement {α : Type} (s : String) (e : Edit Statement α) : Edit Workspace α :=
  Edit.within statements (fun r w ↦ { w with statements := r }) (Registers.edit s e)

def takeStatement (s : String) : Edit Workspace Statement := onStatement s Statement.take

def takeStatements : List String → Edit Workspace (List Statement)
  | [] => return []
  | s :: others => return (← takeStatement s) :: (← takeStatements others)

def putStatement (s : String) (value : Statement) : Edit Workspace Unit :=
  modify fun w ↦ { w with statements := w.statements.set s value }

def putContext (c : String) (value : Context) : Edit Workspace Unit :=
  modify fun w ↦ { w with contexts := w.contexts.set c value }

def putProgram (p : String) (value : Program) : Edit Workspace Unit :=
  modify fun w ↦ { w with programs := w.programs.set p value }

/-- Makes a statement the body of a loop that is the only member of a block. -/
def wrap (guard : Condition) : Edit Statement Unit := do
  let body ← Statement.take
  let loop ← Edit.check (Edit.build .emptyBlock (Statement.assembleWhile guard body))
  Statement.addToBlock 0 loop

/-- Wraps a statement again and again. -/
def wrapTimes (guard : Condition) : Nat → Edit Statement Unit
  | 0 => pure ()
  | times + 1 => do
    wrap guard
    wrapTimes guard times

def swapContext (p c : String) : Edit Workspace Unit :=
  Edit.within (fun w ↦ (w.programs.get p, w.contexts.get c))
    (fun (program, context) w ↦
      { w with programs := w.programs.set p program, contexts := w.contexts.set c context })
    Program.swapContext

def swapBody (p s : String) : Edit Workspace Unit :=
  Edit.within (fun w ↦ (w.programs.get p, w.statements.get s))
    (fun (program, body) w ↦
      { w with programs := w.programs.set p program, statements := w.statements.set s body })
    Program.swapBody

/-- Runs an edit whose violations end the step. -/
def perform (e : Edit Workspace Yield) (w : Workspace) : Outcome × Workspace :=
  match e w with
  | .ok yield w => (.done yield, w)
  | .error v w => (.violated v, w)

/-- Runs an edit that has nothing to give. -/
def silently (e : Edit Workspace Unit) : Workspace → Outcome × Workspace :=
  perform do
    e
    return .nothing

/-- Stores a value that was read from a text; if it cannot be read, nothing changes. -/
def receive {α : Type} (value : Except Json.Failure α) (put : α → Edit Workspace Unit)
    (w : Workspace) : Outcome × Workspace :=
  match value with
  | .ok a => silently (put a) w
  | .error failure => (.unread failure, w)

def run : Step → Workspace → Outcome × Workspace
  | .new s => silently (putStatement s .emptyBlock)
  | .call s name => silently (putStatement s (.call name))
  | .block s members => silently do
    let members ← takeStatements members
    putStatement s (← Edit.check (Statement.block members))
  | .take s into => silently do putStatement into (← takeStatement s)
  | .clear s => silently (onStatement s Statement.clear)
  | .clone s into => silently do putStatement into ((← get).statements.get s)
  | .add s position member => silently do
    let member ← takeStatement member
    onStatement s (Statement.addToBlock position member)
  | .remove s position into => silently do
    putStatement into (← onStatement s (Statement.removeFromBlock position))
  | .assembleIf s guard body => silently do
    let body ← takeStatement body
    onStatement s (Statement.assembleIf guard body)
  | .assembleIfElse s guard thenBody elseBody => silently do
    let thenBody ← takeStatement thenBody
    let elseBody ← takeStatement elseBody
    onStatement s (Statement.assembleIfElse guard thenBody elseBody)
  | .assembleWhile s guard body => silently do
    let body ← takeStatement body
    onStatement s (Statement.assembleWhile guard body)
  | .assembleCall s name => silently (onStatement s (Statement.assembleCall name))
  | .disassembleIf s into => perform do
    let (guard, body) ← onStatement s Statement.disassembleIf
    putStatement into body
    return .condition guard
  | .disassembleIfElse s intoThen intoElse => perform do
    let (guard, thenBody, elseBody) ← onStatement s Statement.disassembleIfElse
    putStatement intoThen thenBody
    putStatement intoElse elseBody
    return .condition guard
  | .disassembleWhile s into => perform do
    let (guard, body) ← onStatement s Statement.disassembleWhile
    putStatement into body
    return .condition guard
  | .disassembleCall s => perform do
    return .name (← onStatement s Statement.disassembleCall)
  | .wrap s guard times => silently (onStatement s (wrapTimes guard times))
  | .decode s text => receive (Json.decode Statement.reader text) (putStatement s)
  | .insert c name body => perform do
    let body ← takeStatement body
    let context := (← get).contexts.get c
    putContext c (context.insert name body)
    return .replaced (context.get? name.text)
  | .delete c name into => perform do
    let context := (← get).contexts.get c
    match context.get? name with
    | some body =>
      putContext c (context.erase name)
      putStatement into body
      return .flag true
    | none => return .flag false
  | .newContext c => silently (putContext c .empty)
  | .newProgram p => silently (putProgram p .new)
  | .setName p name => silently do putProgram p (((← get).programs.get p).setName name)
  | .swapContext p c => silently (swapContext p c)
  | .swapBody p s => silently (swapBody p s)
  | .cloneProgram p into => silently do putProgram into ((← get).programs.get p)
  | .decodeProgram p text => receive (Program.decode text) (putProgram p)

/-- The workspace after a list of steps, whatever each of them came to. -/
def runAll (w : Workspace) (steps : List Step) : Workspace :=
  steps.foldl (fun w step ↦ (run step w).2) w

end Workspace

end BLTree

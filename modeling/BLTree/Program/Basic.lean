import BLTree.Program.Context

/-!
# Programs

A program has a name, a context of procedures and a body. Its context is admissible when no
procedure is named after a primitive instruction and every procedure is a block; its body is a
block. `ofParts` tests parts that come from outside, and the swaps ask for the same as a
precondition.
-/

namespace BLTree

structure Program where
  name : Identifier
  context : Context
  body : Statement
  deriving DecidableEq

namespace Program

/-- What keeps given parts from being a program. The last one is no defect in them but the violation
of asking a statement without a root for its kind. -/
inductive Defect where
  | primitiveRedefined (name : Identifier)
  | procedureNotBlock (name : Identifier) (found : Kind)
  | bodyNotBlock (found : Kind)
  | procedureTwice (name : Identifier)
  | kindless
  deriving DecidableEq

def Defect.message : Defect → String
  | primitiveRedefined name => "procedure '" ++ name.text ++ "' redefines a primitive instruction"
  | procedureNotBlock name found =>
    "procedure '" ++ name.text ++ "' must be a BLOCK, found " ++ found.spelling
  | bodyNotBlock found => "body must be a BLOCK, found " ++ found.spelling
  | procedureTwice name => "procedure '" ++ name.text ++ "' is defined twice"
  | kindless => Violation.treeVacant.message

/-- Where an operation stops that asks for parts without a defect. -/
def Defect.violation : Defect → Violation
  | kindless => .treeVacant
  | _ => .contextRefused

def defaultName : Identifier := ⟨"Unnamed", by decide⟩

def new : Program := ⟨defaultName, .empty, .emptyBlock⟩

instance : Inhabited Program := ⟨new⟩

/-- The defect of a statement that should be a block, `misfit` being what is wrong with another
kind. -/
def blockDefect? (misfit : Kind → Defect) (s : Statement) : Option Defect :=
  match s.kind? with
  | none => some .kindless
  | some kind => if kind = .block then none else some (misfit kind)

/-- The first defect in a list of procedures. -/
def firstDefect? : List (Identifier × Statement) → Option Defect
  | [] => none
  | (name, body) :: others =>
    if name.isPrimitive then some (.primitiveRedefined name)
    else (blockDefect? (.procedureNotBlock name) body).or (firstDefect? others)

/-- Passes an admissible context, and otherwise names its first bad procedure. -/
def checkContext (c : Context) : Except Defect Unit :=
  match firstDefect? c.entries with
  | some defect => .error defect
  | none => .ok ()

/-- The program with the given parts. The context is looked at before the body. -/
def ofParts (name : Identifier) (context : Context) (body : Statement) : Except Defect Program := do
  checkContext context
  match blockDefect? .bodyNotBlock body with
  | some defect => .error defect
  | none => .ok ⟨name, context, body⟩

def setName (p : Program) (name : Identifier) : Program := { p with name }

def procedure? (p : Program) (name : String) : Option Statement := p.context.get? name

/-- Exchanges the context of a program with the one beside it. -/
def swapContext : Edit (Program × Context) Unit := do
  let (p, c) ← get
  match checkContext c with
  | .ok _ => set ({ p with context := c }, p.context)
  | .error defect => throw defect.violation

/-- Exchanges the body of a program with the statement beside it. -/
def swapBody : Edit (Program × Statement) Unit := do
  let (p, s) ← get
  Edit.require (← Edit.check (s.isKind .block)) .programBodyNotBlock
  set ({ p with body := s }, p.body)

end Program

end BLTree

import BLTree.Command.Arguments
import BLTree.Load
import BLTree.Program.Summary
import BLTree.Statement.Drawing

/-!
# Running a command

A command ends with an exit code: 0 for success, 1 if the program cannot be loaded or has no
procedure of the wanted name, 2 for a wrong command line. Only success prints to standard output.
-/

namespace BLTree.Command

/-- The environment variables that decide on colour. -/
structure Environment where
  term : Option String
  noColour : Bool
  deriving DecidableEq

def ColourMode.coloured (mode : ColourMode) (env : Environment) : Bool :=
  match mode with
  | always => true
  | never => false
  | auto => env.term.any (· != "dumb") && !env.noColour

structure Response where
  exit : Nat
  output : String := ""
  report : Option String := none
  deriving DecidableEq

def missingProcedure (p : Program) (name : String) : String :=
  "program " ++ p.name.text ++ " has no procedure named '" ++ name ++ "'"

def perform (action : Action) (coloured : Bool) (p : Program) : Response :=
  match action with
  | .check => { exit := 0, output := p.summary coloured }
  | .tree none => { exit := 0, output := p.body.draw coloured }
  | .tree (some name) =>
    match p.procedure? name with
    | some procedure => { exit := 0, output := procedure.draw coloured }
    | none => { exit := 1, report := some (missingProcedure p name) }

def Request.run (request : Request) (env : Environment) (content : FileContent) : Response :=
  match Program.load request.file content with
  | .ok p => perform request.action (request.colour.coloured env) p
  | .error fault => { exit := 1, report := some fault.message }

def Stop.response : Stop → Response
  | misuse => { exit := 2 }
  | help topic => { exit := 0, output := topic.text }
  | version => { exit := 0, output := versionText }

end BLTree.Command

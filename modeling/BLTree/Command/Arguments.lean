import BLTree.Command.Help

/-!
# Command lines

Arguments are read from left to right, first those of the program and then those of a subcommand. A
value is checked only when the next option or file after it is met, or at the end of its level, and
the end of the first level comes after the whole second level. So a request for help stands if
nothing before it was checked and found wrong.
-/

namespace BLTree.Command

inductive ColourMode where
  | auto
  | always
  | never
  deriving DecidableEq

def ColourMode.parse? : String → Option ColourMode
  | "auto" => some auto
  | "always" => some always
  | "never" => some never
  | _ => none

inductive Action where
  | check
  | tree (procedure : Option String)
  deriving DecidableEq

structure Request where
  colour : ColourMode
  action : Action
  file : String
  deriving DecidableEq

/-- What is asked for, or done, instead of an action. -/
inductive Stop where
  | misuse
  | help (topic : Topic)
  | version
  deriving DecidableEq

/-- An option that takes a value. -/
inductive Setting where
  | colour
  | procedure
  deriving DecidableEq

/-- What has been given but not yet checked. -/
inductive Pending where
  | setting (option : Setting) (value : Option String)
  | file (path : String)
  deriving DecidableEq

/-- The arguments of one level that have been read so far. -/
structure Level where
  colour : Option ColourMode := none
  procedure : Option String := none
  file : Option String := none
  fileGiven : Bool := false
  pending : Option Pending := none
  onlyFiles : Bool := false
  deriving DecidableEq

namespace Level

/-- Gives an option its value, once and if the value will do. -/
def put (level : Level) (option : Setting) (value : String) : Except Stop Level :=
  match option with
  | .colour =>
    match level.colour, ColourMode.parse? value with
    | none, some mode => .ok { level with colour := some mode }
    | _, _ => .error .misuse
  | .procedure =>
    match level.procedure with
    | none => .ok { level with procedure := some value }
    | some _ => .error .misuse

/-- Checks what is pending. -/
def settle (level : Level) : Except Stop Level :=
  let settled := { level with pending := none }
  match level.pending with
  | none => .ok settled
  | some (.setting _ none) => .error .misuse
  | some (.setting option (some value)) => settled.put option value
  | some (.file path) =>
    if path = "" then .error .misuse else .ok { settled with file := some path }

/-- Stops for help or for the version, if nothing before it is wrong. -/
def stop (level : Level) (why : Stop) : Except Stop Level := do
  let _ ← level.settle
  .error why

/-- The option that waits for its value, if one does. -/
def awaiting? (level : Level) : Option Setting :=
  match level.pending with
  | some (.setting option none) => some option
  | _ => none

def giveFile (level : Level) (path : String) : Except Stop Level := do
  if level.fileGiven then .error .misuse
  else
    let settled ← level.settle
    .ok { settled with fileGiven := true, pending := some (.file path) }

end Level

/-- The name and the attached value of a long option, without its dashes. -/
def splitLong (argument : List Char) : String × Option String :=
  let name := argument.takeWhile (· != '=')
  match argument.dropWhile (· != '=') with
  | [] => (String.ofList name, none)
  | _ :: value => (String.ofList name, some (String.ofList value))

/-- What a long option stands for: something to set, or a reason to stop. -/
def longOption? (topic : Topic) : String → Option (Setting ⊕ Stop)
  | "color" => some (.inl .colour)
  | "procedure" => if topic = .tree then some (.inl .procedure) else none
  | "help" => some (.inr (.help topic))
  | "version" => if topic = .program then some (.inr .version) else none
  | _ => none

def readLong (topic : Topic) (level : Level) (argument : List Char) : Except Stop Level :=
  match splitLong argument with
  | (name, value) =>
    match longOption? topic name, value with
    | none, _ => .error .misuse
    | some (.inl option), some value => do (← level.settle).put option value
    | some (.inl option), none => do
      return { (← level.settle) with pending := some (.setting option none) }
    | some (.inr why), none => level.stop why
    | some (.inr _), some _ => .error .misuse

def readShort (topic : Topic) (level : Level) (letter : Char) : Except Stop Level :=
  match letter with
  | 'h' => level.stop (.help topic)
  | 'V' => if topic = .program then level.stop .version else .error .misuse
  | _ => .error .misuse

/-- What is neither an option nor its value. -/
def readPlain (topic : Topic) (level : Level) (argument : String) : Except Stop Level :=
  if topic = .program then .error .misuse else level.giveFile argument

/-- Reads one argument of a level. -/
def readArgument (topic : Topic) (level : Level) (argument : String) : Except Stop Level :=
  if level.onlyFiles then readPlain topic level argument
  else
    match argument.toList with
    | ['-', '-'] => .ok { level with onlyFiles := true }
    | '-' :: '-' :: long => readLong topic level long
    | '-' :: letter :: _ => readShort topic level letter
    | _ =>
      match level.awaiting? with
      | some option => .ok { level with pending := some (.setting option (some argument)) }
      | none => readPlain topic level argument

/-- The topic that the arguments of `help` lead to. -/
def helpTopic : List String → Stop
  | [] => .help .program
  | ["check"] => .help .check
  | ["tree"] => .help .tree
  | ["help"] => .help .help
  | _ => .misuse

/-- Reads the arguments of a subcommand. -/
def readFileCommand (topic : Topic) (arguments : List String) : Except Stop Level := do
  (← arguments.foldlM (readArgument topic) {}).settle

/-- The request that the two levels of a command line make together. -/
def request (outer inner : Level) (action : Action) : Except Stop Request := do
  let file ←
    match inner.file with
    | some file => .ok file
    | none => .error .misuse
  let outer ← outer.settle
  return ⟨(inner.colour <|> outer.colour).getD .auto, action, file⟩

def readProgram (level : Level) : List String → Except Stop Request
  | [] => .error .misuse
  | argument :: others =>
    if level.onlyFiles ∨ level.awaiting?.isSome then do
      readProgram (← readArgument .program level argument) others
    else
      match argument with
      | "check" => do request level (← readFileCommand .check others) .check
      | "tree" => do
        let inner ← readFileCommand .tree others
        request level inner (.tree inner.procedure)
      | "help" => .error (helpTopic others)
      | _ => do readProgram (← readArgument .program level argument) others

/-- What a command line asks for. -/
def parse (arguments : List String) : Except Stop Request := readProgram {} arguments

end BLTree.Command

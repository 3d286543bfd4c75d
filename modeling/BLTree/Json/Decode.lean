import BLTree.Json.Reader.Structures

/-!
# Reading trees, statements and programs

Each reader takes the number of brackets that may still be opened; a whole text may nest
`nestingLimit` of them. A tree spends two on each level, one on the node and one on the list of its
children.
-/

namespace BLTree

open Json Json.Reader

namespace Identifier

def reader : Reader Identifier := do vetted (readIdentifier (← stringValue))

end Identifier

namespace Condition

def reader : Nat → Reader Condition :=
  variant (all.map fun c ↦ (c.spelling, .nothing c))

end Condition

namespace Kind

def reader : Nat → Reader Kind :=
  variant (all.map fun k ↦ (k.spelling, .nothing k))

end Kind

namespace Label

/-- What follows the kind of a label. -/
def payload : Kind → Payload Label
  | .block => .nothing block
  | .ifThen => .carried fun budget ↦ return ifThen (← Condition.reader budget)
  | .ifElse => .carried fun budget ↦ return ifElse (← Condition.reader budget)
  | .whileDo => .carried fun budget ↦ return whileDo (← Condition.reader budget)
  | .call => .carried fun _ ↦ return call (← Identifier.reader)

def reader : Nat → Reader Label :=
  variant (Kind.all.map fun k ↦ (k.spelling, payload k))

end Label

namespace Tree

variable {L : Type}

/-- The members of a node that have been read so far. -/
structure Draft (L : Type) where
  label : Option L := none
  children : Option (List (Tree L)) := none

/-- The children of a node, each read by `child`. -/
def childrenReader (child : Reader (Tree L)) (budget : Nat) : Reader (List (Tree L)) := do
  if (← demand) = '[' then enclosed closeList (fun _ ↦ items child) budget
  else wrongType "a sequence"

def namedNode (label : Nat → Reader L) (child : Reader (Tree L)) (budget : Nat) :
    Reader (Tree L) := do
  let draft ← members ({} : Draft L) fun key draft ↦
    match key with
    | "label" => some do
      let l ← once key draft.label (label budget)
      return { draft with label := some l }
    | "children" => some do
      let ts ← once key draft.children (childrenReader child budget)
      return { draft with children := some ts }
    | _ => none
  return node (← required "label" draft.label) (← required "children" draft.children)

def positionalNode (label : Nat → Reader L) (child : Reader (Tree L)) (budget : Nat) :
    Reader (Tree L) := do
  let l ← place "Node" 2 0 (label budget)
  let ts ← place "Node" 2 1 (childrenReader child budget)
  return node l ts

/-- A tree whose subtrees are read by `child`. -/
def readerWith (label : Nat → Reader L) (child : Reader (Tree L)) (budget : Nat) :
    Reader (Tree L) := do
  if (← upcoming) = some 'n' then
    word "null".toList
    return empty
  else record "Node" (namedNode label child) (positionalNode label child) budget

def reader (label : Nat → Reader L) : Nat → Reader (Tree L)
  | budget + 2 => readerWith label (reader label budget) (budget + 2)
  | budget => readerWith label (failNext (.breach .tooDeep)) budget

end Tree

namespace Statement

def reader (budget : Nat) : Reader Statement := do
  let t ← Tree.reader Label.reader budget
  vetted ((ofTree t).mapError .tree)

end Statement

namespace Context

/-- The procedures of a context, none of which may be defined twice. -/
def procedures (budget : Nat) : Reader Context :=
  repeatFrom (true, empty) fun (first, c) ↦ do
    match ← anotherKey first with
    | none => return .inr c
    | some key =>
      let name ← vetted (readIdentifier key)
      colon
      let body ← Statement.reader budget
      if c.contains name then mismatch (.rejected (.program (.procedureTwice name)))
      else return .inl (false, c.insert name body)

def reader (budget : Nat) : Reader Context := do
  if (← demand) = '\x7b' then enclosed closeObject procedures budget
  else wrongType "a map from procedure name to BLOCK statement"

end Context

namespace Program

/-- The members of a program that have been read so far. -/
structure Draft where
  name : Option Identifier := none
  context : Option Context := none
  body : Option Statement := none

/-- The parts of a program, before they are checked together. -/
structure Parts where
  name : Identifier
  context : Context
  body : Statement

def namedParts (budget : Nat) : Reader Parts := do
  let draft ← members ({} : Draft) fun key draft ↦
    match key with
    | "name" => some do
      let name ← once key draft.name Identifier.reader
      return { draft with name := some name }
    | "context" => some do
      let context ← once key draft.context (Context.reader budget)
      return { draft with context := some context }
    | "body" => some do
      let body ← once key draft.body (Statement.reader budget)
      return { draft with body := some body }
    | _ => none
  let name ← required "name" draft.name
  let body ←
    match draft.body with
    | some body => pure body
    | none => vetted ((Statement.ofTree .empty).mapError .tree)
  return ⟨name, draft.context.getD .empty, body⟩

def positionalParts (budget : Nat) : Reader Parts := do
  let title := "RawProgram"
  let name ← place title 3 0 Identifier.reader
  let context ← if ← anotherItem false then Context.reader budget else pure .empty
  let body ← place title 3 2 (Statement.reader budget)
  return ⟨name, context, body⟩

def partsReader : Nat → Reader Parts := record "RawProgram" namedParts positionalParts

def reader (budget : Nat) : Reader Program := do
  let parts ← partsReader budget
  vetted ((ofParts parts.name parts.context parts.body).mapError .program)

end Program

namespace Json

/-- How many brackets may be open at once. -/
def nestingLimit : Nat := 127

/-- Reads a whole text, after which only blanks may follow. -/
def decodeChars {α : Type} (reader : Nat → Reader α) (text : List Char) : Except Failure α := do
  let (value, rest) ← reader nestingLimit text
  let (next, rest) ← upcoming rest
  if next.isSome then .error ⟨.breach .trailingCharacters, rest, some 1⟩ else .ok value

def decode {α : Type} (reader : Nat → Reader α) (text : String) : Except Failure α :=
  decodeChars reader text.toList

end Json

end BLTree

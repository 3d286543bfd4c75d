import BLTree.Json.Reader.Numbers
import BLTree.Json.Reader.Strings

/-!
# Passing over values

`skipValue` passes over any value, however deeply it is nested: it keeps the brackets that are open
as a list, innermost first.
-/

namespace BLTree.Json.Reader

inductive Bracket where
  | list
  | object
  deriving DecidableEq

namespace Bracket

def closing : Bracket → Char
  | list => ']'
  | object => '\x7d'

def unfinished : Bracket → Cause
  | list => .unfinished .list
  | object => .unfinished .object

def commaMissing : Bracket → Cause
  | list => .breach .expectedCommaOrBracket
  | object => .breach .expectedCommaOrBrace

end Bracket

def colon : Reader Unit := do
  match ← upcoming with
  | some ':' => advance
  | some _ => failNext (.breach .expectedColon)
  | none => failNext (.unfinished .object)

/-- Passes over the key that stands before a value inside an object. -/
def skipKey : Bracket → Reader Unit
  | .list => pure ()
  | .object => do
    match ← upcoming with
    | some '"' =>
      advance
      skipString
      colon
    | some _ => failNext (.breach .keyNotString)
    | none => failNext (.unfinished .object)

/-- After a value: closes brackets until another value is due, and gives those still open. -/
def skipClosings : List Bracket → Reader (List Bracket)
  | [] => return []
  | bracket :: others => do
    match ← upcoming with
    | none => failNext bracket.unfinished
    | some c =>
      if c = ',' then
        advance
        skipKey bracket
        return bracket :: others
      else if c = bracket.closing then
        advance
        skipClosings others
      else failNext bracket.commaMissing

/-- After an opening bracket: either it closes at once or a value is due. -/
def skipOpening (bracket : Bracket) (others : List Bracket) : Reader (List Bracket) := do
  match ← upcoming with
  | none => failNext bracket.unfinished
  | some c =>
    if c = bracket.closing then
      advance
      skipClosings others
    else
      skipKey bracket
      return bracket :: others

/-- Passes over one value, or into one, and gives the brackets that are open then. -/
def skipPiece (brackets : List Bracket) : Reader (List Bracket) := do
  match ← demand with
  | 'n' =>
    word "null".toList
    skipClosings brackets
  | 't' =>
    word "true".toList
    skipClosings brackets
  | 'f' =>
    word "false".toList
    skipClosings brackets
  | '-' =>
    advance
    skipNumber
    skipClosings brackets
  | '"' =>
    advance
    skipString
    skipClosings brackets
  | '[' =>
    advance
    skipOpening .list brackets
  | '\x7b' =>
    advance
    skipOpening .object brackets
  | c =>
    if c.isDigit then
      skipNumber
      skipClosings brackets
    else failNext (.breach .expectedValue)

def skipStep (brackets : List Bracket) : Reader (List Bracket ⊕ Unit) := do
  match ← skipPiece brackets with
  | [] => return .inr ()
  | stillOpen => return .inl stillOpen

def skipValue : Reader Unit := repeatFrom [] skipStep

end BLTree.Json.Reader

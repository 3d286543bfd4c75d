import BLTree.Json.Decode
import BLTree.Position

/-!
# Loading programs

A program is loaded from what its path holds. A text that does not decode is reported with its
reason, the position if there is one, and the offset that a label in the text should have.
-/

namespace BLTree

/-- What a path holds. -/
inductive FileContent where
  | missing
  | directory
  | bytes (content : ByteArray)

inductive ReadFault where
  | missing
  | directory
  | notUtf8
  deriving DecidableEq

def ReadFault.message : ReadFault → String
  | missing => "No such file or directory (os error 2)"
  | directory => "Is a directory (os error 21)"
  | notUtf8 => "stream did not contain valid UTF-8"

/-- The text that a path holds. -/
def FileContent.text : FileContent → Except ReadFault String
  | missing => .error .missing
  | directory => .error .directory
  | bytes content =>
    match String.fromUTF8? content with
    | some text => .ok text
    | none => .error .notUtf8

namespace Json.Failure

/-- The place of a failure in the text that was read. -/
def position? (failure : Failure) (text : String) : Option Position :=
  (failure.offset? text.toList).map (Position.ofOffset text.toUTF8.data.toList)

/-- The message of a failure, followed by its position if it has one. -/
def reason (failure : Failure) (text : String) : String :=
  failure.cause.message ++
    match failure.position? text with
    | some p => " at line " ++ toString p.line ++ " column " ++ toString p.column
    | none => ""

/-- The offset of the byte that the failure is about; the start of the text if it has no place. -/
def labelOffset (failure : Failure) (text : String) : Nat :=
  ((failure.position? text).getD ⟨0, 0⟩).offset text.toUTF8.data.toList

end Json.Failure

inductive LoadFault where
  | unreadable (path : String) (why : ReadFault)
  | undecodable (path text : String) (failure : Json.Failure)

namespace LoadFault

def message : LoadFault → String
  | unreadable path _ => "could not read " ++ path
  | undecodable path text failure =>
    "could not load program from " ++ path ++ ": " ++ failure.reason text

def code? : LoadFault → Option String
  | unreadable _ _ => none
  | undecodable _ _ _ => some "bl::load"

end LoadFault

namespace Program

def decode (text : String) : Except Json.Failure Program := Json.decode reader text

def load (path : String) (content : FileContent) : Except LoadFault Program := do
  let text ← content.text.mapError (.unreadable path)
  (decode text).mapError (.undecodable path text)

end Program

end BLTree

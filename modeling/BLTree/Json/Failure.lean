import BLTree.Fault
import BLTree.Text.Decimal
import BLTree.Text.Quoted

/-!
# Failures of reading

A text cannot be read because it ends too early, because it is not JSON, or because its JSON is not
what was asked for. A failure knows what was left of the text when it arose, and how many bytes of
that count as read when it is reported; while that number is missing it has no place in the text.
-/

namespace BLTree.Json

/-- What the text breaks off in. -/
inductive Construct where
  | value
  | string
  | list
  | object
  deriving DecidableEq

def Construct.phrase : Construct → String
  | value => "a value"
  | string => "a string"
  | list => "a list"
  | object => "an object"

/-- A breach of the grammar, or of the limits that reading sets to it. -/
inductive Breach where
  | controlCharacter
  | invalidEscape
  | loneSurrogate
  | brokenPair
  | invalidNumber
  | numberOutOfRange
  | expectedWord
  | expectedValue
  | expectedColon
  | expectedCommaOrBracket
  | expectedCommaOrBrace
  | keyNotString
  | trailingComma
  | trailingCharacters
  | tooDeep
  deriving DecidableEq

def Breach.message : Breach → String
  | controlCharacter => "control character (\\u0000-\\u001F) found while parsing a string"
  | invalidEscape => "invalid escape"
  | loneSurrogate => "lone leading surrogate in hex escape"
  | brokenPair => "unexpected end of hex escape"
  | invalidNumber => "invalid number"
  | numberOutOfRange => "number out of range"
  | expectedWord => "expected ident"
  | expectedValue => "expected value"
  | expectedColon => "expected `:`"
  | expectedCommaOrBracket => "expected `,` or `]`"
  | expectedCommaOrBrace => "expected `,` or `\x7d`"
  | keyNotString => "key must be a string"
  | trailingComma => "trailing comma"
  | trailingCharacters => "trailing characters"
  | tooDeep => "recursion limit exceeded"

/-- A number as it is read: an integer of at most 64 bits, or the bits of a floating-point number.
-/
inductive Number where
  | natural (n : Nat)
  | negated (n : Nat)
  | floating (bits : UInt64)
  deriving DecidableEq

/-- What stands where something else was asked for. -/
inductive Found where
  | null
  | boolean (value : Bool)
  | number (value : Number)
  | string (value : String)
  | list
  | object
  deriving DecidableEq

def Number.describe : Number → String
  | natural n => "integer `" ++ toString n ++ "`"
  | negated n => "integer `-" ++ toString n ++ "`"
  | floating bits => "floating point `" ++ Text.floatText bits ++ "`"

def Found.describe : Found → String
  | null => "null"
  | boolean value => "boolean `" ++ (if value then "true" else "false") ++ "`"
  | number value => value.describe
  | string value => "string " ++ Text.quoted value
  | list => "sequence"
  | object => "map"

/-- JSON that is not what was asked for. -/
inductive Mismatch where
  | wrongType (found : Found) (expected : String)
  | wrongValue (found : Number) (expected : String)
  | wrongLength (found : Nat) (title : String) (expected : Nat)
  | unknownVariant (name : String) (known : List String)
  | payloadMissing
  | fieldMissing (name : String)
  | fieldTwice (name : String)
  | rejected (fault : Fault)
  deriving DecidableEq

def Mismatch.message : Mismatch → String
  | wrongType found expected => "invalid type: " ++ found.describe ++ ", expected " ++ expected
  | wrongValue found expected => "invalid value: " ++ found.describe ++ ", expected " ++ expected
  | wrongLength found title expected =>
    "invalid length " ++ toString found ++ ", expected struct " ++ title ++ " with " ++
      toString expected ++ " elements"
  | unknownVariant name known =>
    "unknown variant `" ++ name ++ "`, expected one of " ++
      ", ".intercalate (known.map fun k ↦ "`" ++ k ++ "`")
  | payloadMissing => "invalid type: unit variant, expected newtype variant"
  | fieldMissing name => "missing field `" ++ name ++ "`"
  | fieldTwice name => "duplicate field `" ++ name ++ "`"
  | rejected fault => fault.toText

inductive Cause where
  | unfinished (construct : Construct)
  | breach (b : Breach)
  | mismatch (m : Mismatch)
  deriving DecidableEq

inductive Category where
  | unfinished
  | grammar
  | data
  deriving DecidableEq

namespace Cause

def message : Cause → String
  | unfinished construct => "EOF while parsing " ++ construct.phrase
  | breach b => b.message
  | mismatch m => m.message

def category : Cause → Category
  | unfinished _ => .unfinished
  | breach _ => .grammar
  | mismatch _ => .data

end Cause

/-- How many bytes a text takes in UTF-8. -/
def byteLength : List Char → Nat
  | [] => 0
  | c :: others => c.utf8Size + byteLength others

structure Failure where
  cause : Cause
  rest : List Char
  reach : Option Nat
  deriving DecidableEq

namespace Failure

/-- How many bytes of the whole text had been read where the failure is reported. -/
def offset? (failure : Failure) (text : List Char) : Option Nat :=
  failure.reach.map fun reach ↦
    byteLength text - byteLength failure.rest + min reach (byteLength failure.rest)

end Failure

end BLTree.Json

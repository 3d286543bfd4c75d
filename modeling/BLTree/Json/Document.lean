/-!
# JSON documents and their compact text

A document keeps the members of an object in order and with repetitions. Its compact text has no
blanks; in a string only quotes, backslashes and control characters are escaped.
-/

namespace BLTree.Json

/-- A number as it is written: sign, whole part, decimal places, exponent. -/
structure Numeral where
  negative : Bool
  whole : Nat
  places : List (Fin 10)
  exponent : Option Int
  deriving DecidableEq

inductive Document where
  | null
  | boolean (value : Bool)
  | number (value : Numeral)
  | string (value : String)
  | array (items : List Document)
  | object (members : List (String × Document))

/-- The numeral of an integer. -/
def Numeral.ofInt (n : Int) : Numeral := ⟨decide (n < 0), n.natAbs, [], none⟩

def intChars (n : Int) : List Char :=
  (if n < 0 then ['-'] else []) ++ Nat.toDigits 10 n.natAbs

def Numeral.chars (n : Numeral) : List Char :=
  (if n.negative then ['-'] else []) ++ Nat.toDigits 10 n.whole ++
    (if n.places = [] then [] else '.' :: n.places.map fun d ↦ Nat.digitChar d.val) ++
    n.exponent.elim [] fun e ↦ 'e' :: intChars e

/-- A character as it stands in a string: the common control characters have a short escape. -/
def escaped (c : Char) : List Char :=
  match c with
  | '"' => ['\\', '"']
  | '\\' => ['\\', '\\']
  | '\x08' => ['\\', 'b']
  | '\t' => ['\\', 't']
  | '\n' => ['\\', 'n']
  | '\x0c' => ['\\', 'f']
  | '\r' => ['\\', 'r']
  | c =>
    if c.toNat < 0x20 then
      ['\\', 'u', '0', '0', Nat.digitChar (c.toNat / 16), Nat.digitChar (c.toNat % 16)]
    else [c]

def stringChars (text : String) : List Char := '"' :: text.toList.flatMap escaped ++ ['"']

namespace Document

mutual

def compact : Document → List Char
  | null => "null".toList
  | boolean value => (if value then "true" else "false").toList
  | number value => value.chars
  | string value => stringChars value
  | array items => '[' :: compactItems items ++ [']']
  | object members => '\x7b' :: compactMembers members ++ ['\x7d']

def compactItems : List Document → List Char
  | [] => []
  | [item] => compact item
  | item :: items => compact item ++ ',' :: compactItems items

def compactMembers : List (String × Document) → List Char
  | [] => []
  | [(key, value)] => stringChars key ++ ':' :: compact value
  | (key, value) :: members =>
    stringChars key ++ ':' :: compact value ++ ',' :: compactMembers members

end

def toText (d : Document) : String := String.ofList d.compact

@[simp] theorem toList_toText (d : Document) : d.toText.toList = d.compact := String.toList_ofList

end Document

end BLTree.Json

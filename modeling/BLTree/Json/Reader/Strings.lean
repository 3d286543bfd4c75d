import BLTree.Json.Reader

/-!
# Reading strings

`string` reads the inside of a string and its closing quote. A character beyond the first plane may
be written as a pair of escapes, each of which alone is refused; `skipString` passes over a string
that nobody wants and lets such halves be.
-/

namespace BLTree.Json.Reader

def hexDigit? (c : Char) : Option Nat :=
  if c.isDigit then some (c.toNat - '0'.toNat)
  else if 'a' ≤ c ∧ c ≤ 'f' then some (c.toNat - 'a'.toNat + 10)
  else if 'A' ≤ c ∧ c ≤ 'F' then some (c.toNat - 'A'.toNat + 10)
  else none

/-- Four hexadecimal digits. -/
def hexQuad : Reader Nat := fun rest ↦
  if byteLength (rest.take 4) < 4 then .error ⟨.unfinished .string, [], some 0⟩
  else
    match (rest.take 4).mapM hexDigit? with
    | some digits => .ok (digits.foldl (fun n d ↦ n * 16 + d) 0, rest.drop 4)
    | none => .error ⟨.breach .invalidEscape, rest, some 4⟩

def isLeading (n : Nat) : Bool := decide (0xD800 ≤ n ∧ n ≤ 0xDBFF)

def isTrailing (n : Nat) : Bool := decide (0xDC00 ≤ n ∧ n ≤ 0xDFFF)

/-- A character that has to stand between the halves of a pair. -/
def pairMark (c : Char) : Reader Unit := do
  match ← peek with
  | none => failHere (.unfinished .string)
  | some d => if d = c then advance else failNext (.breach .brokenPair)

/-- A character by its number, after the mark of such an escape. -/
def numberedChar : Reader Char := do
  let first ← hexQuad
  if isTrailing first then failHere (.breach .loneSurrogate)
  else if isLeading first then
    pairMark '\\'
    pairMark 'u'
    let second ← hexQuad
    if isTrailing second then
      return Char.ofNat (0x10000 + (first - 0xD800) * 0x400 + (second - 0xDC00))
    else failHere (.breach .loneSurrogate)
  else return Char.ofNat first

/-- The character that a one-letter escape stands for. -/
def shortEscape? : Char → Option Char
  | '"' => some '"'
  | '\\' => some '\\'
  | '/' => some '/'
  | 'b' => some '\x08'
  | 'f' => some '\x0c'
  | 'n' => some '\n'
  | 'r' => some '\r'
  | 't' => some '\t'
  | _ => none

/-- An escape, after its backslash. -/
def escape : Reader Char := do
  match ← peek with
  | none => failHere (.unfinished .string)
  | some 'u' =>
    advance
    numberedChar
  | some c =>
    match shortEscape? c with
    | some d =>
      advance
      return d
    | none => failNext (.breach .invalidEscape)

def isControl (c : Char) : Bool := decide (c.toNat < 0x20)

/-- The rest of a string of which `done` has been read, in reverse. -/
def stringStep (done : List Char) : Reader (List Char ⊕ String) := do
  match ← peek with
  | none => failHere (.unfinished .string)
  | some '"' =>
    advance
    return .inr (String.ofList done.reverse)
  | some '\\' =>
    advance
    return .inl ((← escape) :: done)
  | some c =>
    if isControl c then failNext (.breach .controlCharacter)
    else
      advance
      return .inl (c :: done)

/-- A string, after its opening quote. -/
def string : Reader String := repeatFrom [] stringStep

/-- Passes over an escape, after its backslash. -/
def skipEscape : Reader Unit := do
  match ← peek with
  | none => failHere (.unfinished .string)
  | some 'u' =>
    advance
    let _ ← hexQuad
  | some c =>
    match shortEscape? c with
    | some _ => advance
    | none => failNext (.breach .invalidEscape)

def skipStringStep : Unit → Reader (Unit ⊕ Unit) := fun _ ↦ do
  match ← peek with
  | none => failHere (.unfinished .string)
  | some '"' =>
    advance
    return .inr ()
  | some '\\' =>
    advance
    skipEscape
    return .inl ()
  | some c =>
    if isControl c then failHere (.breach .controlCharacter)
    else
      advance
      return .inl ()

/-- Passes over a string, after its opening quote. -/
def skipString : Reader Unit := repeatFrom () skipStringStep

end BLTree.Json.Reader

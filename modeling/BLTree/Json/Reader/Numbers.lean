import BLTree.Json.Reader

/-!
# Reading numbers

A numeral without point and exponent that fits into 64 bits is an integer. Any other is a
floating-point number: as many digits as fit into 64 bits, scaled by one power of ten; digits beyond
those count only for the scale.
-/

namespace BLTree.Json

def Number.ofSign (negative : Bool) (value : Float) : Number :=
  .floating (if negative then -value else value).toBits

namespace Reader

def digits : Reader (List Char) := do
  let rest ← get
  set (rest.dropWhile Char.isDigit)
  return rest.takeWhile Char.isDigit

/-- The whole part: one zero, or digits that do not start with one. -/
def wholePart (unfinished : Cause) : Reader (List Char) := do
  match ← peek with
  | none => failHere unfinished
  | some '0' =>
    advance
    if (← peek).any Char.isDigit then failNext (.breach .invalidNumber) else return ['0']
  | some c => if c.isDigit then digits else failNext (.breach .invalidNumber)

/-- The decimal places, if a point is next. -/
def decimalPlaces (unfinished : Cause) : Reader (List Char) := do
  if (← peek) = some '.' then
    advance
    let places ← digits
    if places.isEmpty then
      failNext (if (← peek).isSome then .breach .invalidNumber else unfinished)
    else return places
  else return []

/-- The sign and the digits of the exponent, if its mark is next. -/
def exponentPart (unfinished : Cause) : Reader (Option (Bool × List Char)) := do
  if (← peek).any fun c ↦ c == 'e' || c == 'E' then
    advance
    let sign ← peek
    if sign = some '+' ∨ sign = some '-' then advance
    match ← peek with
    | none => failHere unfinished
    | some c =>
      if c.isDigit then return some (sign == some '-', ← digits)
      else failNext (.breach .invalidNumber)
  else return none

/-- Passes over a numeral that nobody wants, after its sign. -/
def skipNumber : Reader Unit := do
  let _ ← wholePart (.breach .invalidNumber)
  let _ ← decimalPlaces (.breach .invalidNumber)
  let _ ← exponentPart (.breach .invalidNumber)

def digitValue (c : Char) : Nat := c.toNat - '0'.toNat

/-- Appends digits to a number for as long as it does not exceed `bound`; the digits left over
follow. -/
def accumulate (bound : Nat) (n : Nat) : List Char → Nat × List Char
  | [] => (n, [])
  | c :: others =>
    if n * 10 + digitValue c ≤ bound then accumulate bound (n * 10 + digitValue c) others
    else (n, c :: others)

def greatestNatural : Nat := 0xFFFFFFFFFFFFFFFF

/-- The greatest absolute value of a negative integer of 64 bits. -/
def greatestNegated : Nat := 0x8000000000000000

def greatestExponent : Nat := 0x7FFFFFFF

/-- The greatest power of ten, by exponent, that a floating-point number reaches. -/
def greatestPower : Nat := 308

def powerOfTen (exponent : Nat) : Float := Float.ofScientific 1 false exponent

/-- `value * 10 ^ exponent` by one multiplication or division; none if it is too large. -/
def scaled (value : Float) (exponent : Int) : Option Float :=
  if exponent.natAbs ≤ greatestPower then
    if 0 ≤ exponent then
      let result := value * powerOfTen exponent.toNat
      if result.isInf then none else some result
    else some (value / powerOfTen exponent.natAbs)
  else if value == 0 then some value
  else if 0 ≤ exponent then none
  else scaled (value / powerOfTen greatestPower) (exponent + greatestPower)
termination_by exponent.natAbs
decreasing_by
  unfold greatestPower at *
  omega

def floating (negative : Bool) (significand : Nat) (exponent : Int) : Reader Number :=
  match scaled (Float.ofNat significand) exponent with
  | some value => return .ofSign negative value
  | none => failHere (.breach .numberOutOfRange)

/-- A numeral, after its sign. -/
def number (negative : Bool) : Reader Number := do
  let unfinished := Cause.unfinished .value
  let whole ← wholePart unfinished
  let places ← decimalPlaces unfinished
  let exponent ← exponentPart unfinished
  let (integral, dropped) := accumulate greatestNatural 0 whole
  let (significand, unused) := accumulate greatestNatural integral places
  let shift : Int := dropped.length - (places.length - unused.length : Nat)
  match exponent with
  | none =>
    if dropped.isEmpty ∧ places.isEmpty then
      if ¬ negative then return .natural integral
      else if integral ≠ 0 ∧ integral ≤ greatestNegated then return .negated integral
      else return .ofSign true (Float.ofNat integral)
    else floating negative significand shift
  | some (below, exponentDigits) =>
    match accumulate greatestExponent 0 exponentDigits with
    | (power, []) => floating negative significand (if below then shift - power else shift + power)
    | (_, _ :: beyond) =>
      if significand = 0 ∨ below then return .ofSign negative 0
      else
        set (beyond ++ (← get))
        failHere (.breach .numberOutOfRange)

end Reader

end BLTree.Json

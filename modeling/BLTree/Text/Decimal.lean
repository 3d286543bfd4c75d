/-!
# Shortest decimals

A finite 64-bit floating-point number, given by its bits, is `mantissa * 2 ^ exponent`. Of all
decimals that round to it, `shortest` takes one with the fewest digits, of those the nearest, and of
two equally near ones the even one: it looks for the coarsest power of ten of which a multiple next
to the number lies between the midpoints to the neighbouring floating-point numbers. All arithmetic
is exact.
-/

namespace BLTree.Text

structure Binary where
  negative : Bool
  mantissa : Nat
  exponent : Int

namespace Binary

/-- The mantissa of a number whose leading digit is not stored: one more than fits into 52 bits. -/
def hiddenDigit : Nat := 0x10000000000000

def ofBits (bits : UInt64) : Binary :=
  let fraction := bits.toNat % hiddenDigit
  let biased := bits.toNat / hiddenDigit % 0x800
  { negative := bits.toNat / 0x8000000000000000 == 1
    mantissa := if biased = 0 then fraction else hiddenDigit + fraction
    exponent := (max biased 1 : Nat) - (1075 : Int) }

/-- Whether the neighbour below is only half as far as the neighbour above. -/
def crowdedBelow (x : Binary) : Bool := x.mantissa == hiddenDigit && x.exponent != -1074

end Binary

/-- The number `digits * 10 ^ exponent`. -/
structure Decimal where
  digits : Nat
  exponent : Int

namespace Decimal

/-- The nearest multiple of `10 ^ exponent` that rounds to `x`, if one of the two next to it does;
the even one of two equally near. Lengths are counted in quarters of the last binary place. -/
def candidate? (x : Binary) (exponent : Int) : Option Decimal :=
  let scale := Nat.pow 10 exponent.toNat * Nat.pow 2 (2 - x.exponent).toNat
  let unit := Nat.pow 10 (-exponent).toNat * Nat.pow 2 (x.exponent - 2).toNat
  let value := 4 * x.mantissa * unit
  let lower := (4 * x.mantissa - if x.crowdedBelow then 1 else 2) * unit
  let upper := (4 * x.mantissa + 2) * unit
  let slack := if x.mantissa % 2 = 0 then 0 else 1
  let digits := value / scale
  let fitsBelow := decide (lower + slack ≤ digits * scale)
  let fitsAbove := decide ((digits + 1) * scale + slack ≤ upper)
  let toBelow := value - digits * scale
  let toAbove := (digits + 1) * scale - value
  let prefersAbove := decide (toAbove < toBelow ∨ toAbove = toBelow ∧ digits % 2 = 1)
  if fitsAbove && (prefersAbove || !fitsBelow) then some ⟨digits + 1, exponent⟩
  else if fitsBelow then some ⟨digits, exponent⟩
  else none

/-- The greatest exponent that is tried; no finite number reaches the power of ten above it. -/
def topExponent : Nat := 309

/-- The number of exponents that are tried; the least of them is fine enough for every number. -/
def exponentCount : Nat := 640

def shortest (x : Binary) : Decimal :=
  if x.mantissa = 0 then ⟨0, 0⟩
  else
    ((List.range exponentCount).findSome? fun (step : Nat) ↦
      candidate? x ((topExponent : Int) - step)).getD ⟨0, 0⟩

/-- The text of a decimal. All digits are written out, with at least one after the point, if no more
than sixteen stand before the point and no more than four zeros follow it; otherwise the point
follows the first digit and an exponent is given with its sign. -/
def chars (d : Decimal) : List Char :=
  let digits := Nat.toDigits 10 d.digits
  let point : Int := digits.length + d.exponent
  if 0 ≤ d.exponent ∧ point ≤ 16 then
    digits ++ List.replicate d.exponent.toNat '0' ++ ['.', '0']
  else if 0 < point ∧ point ≤ 16 then
    digits.take point.toNat ++ '.' :: digits.drop point.toNat
  else if -5 < point ∧ point ≤ 0 then
    ['0', '.'] ++ List.replicate (-point).toNat '0' ++ digits
  else
    digits.take 1 ++ (if digits.length = 1 then [] else '.' :: digits.drop 1) ++
      'e' :: (if 0 < point then ['+'] else []) ++ (toString (point - 1)).toList

end Decimal

/-- The text of the floating-point number with the given bits. -/
def floatText (bits : UInt64) : String :=
  let x := Binary.ofBits bits
  String.ofList ((if x.negative then ['-'] else []) ++ (Decimal.shortest x).chars)

end BLTree.Text

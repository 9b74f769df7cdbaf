import XmlLayout.Decimal.Binary64

/-!
# The shortest decimal of a floating-point number

Many decimals are nearest to one floating-point number: those between the midpoints to its two
neighbours, the midpoints included when the mantissa is even. Of these the shortest is wanted,
and of several shortest ones the nearest. For `1, 2, …` digits the two neighbours of the number
on the grid of decimals with so many digits are tested; if any decimal of the grid lies between
the midpoints, one of these two does.
-/

namespace XmlLayout.Decimal

/-- The decimals that are read as one number, as a range around it. All fields are numerators
over the common denominator `den`. -/
structure ReadingRange where
  low : Nat
  value : Nat
  high : Nat
  den : Nat
  closed : Bool

/-- The range around `mantissa * 2 ^ exponent`. The gap below a power of two is half as wide as
the gap above it, unless it is the least exponent. -/
def ReadingRange.of (mantissa : Nat) (exponent : Int) : ReadingRange :=
  let below := if mantissa = Nat.pow 2 52 ∧ exponent ≠ Binary64.leastExponent then 1 else 2
  let unit := Binary64.magnitude 1 (exponent - 2)
  { low := (4 * mantissa - below) * unit.1
    value := 4 * mantissa * unit.1
    high := (4 * mantissa + 2) * unit.1
    den := unit.2
    closed := mantissa % 2 = 0 }

/-- The same range in units of `10 ^ exponent`. -/
def ReadingRange.inUnits (r : ReadingRange) : Int → ReadingRange
  | .ofNat n => { r with den := r.den * Nat.pow 10 n }
  | .negSucc n =>
    let factor := Nat.pow 10 (n + 1)
    { r with low := r.low * factor, value := r.value * factor, high := r.high * factor }

/-- Whether an integer lies in the range. -/
def ReadingRange.holds (r : ReadingRange) (n : Nat) : Bool :=
  if r.closed then r.low ≤ n * r.den && n * r.den ≤ r.high
  else r.low < n * r.den && n * r.den < r.high

/-- The integer of the range that is nearest to its value, if there is any in it. Of two that
are equally near, the even one. -/
def ReadingRange.nearestInteger? (r : ReadingRange) : Option Nat :=
  let floor := r.value / r.den
  match r.holds floor, r.holds (floor + 1) with
  | true, true => some (roundDiv r.value r.den)
  | true, false => some floor
  | false, true => some (floor + 1)
  | false, false => none

/-- The number of decimal digits; none for zero. -/
def digitCount (n : Nat) : Nat :=
  if n = 0 then 0 else (Nat.toDigits 10 n).length

/-- The `p` with `10 ^ (p - 1) ≤ num / den < 10 ^ p`, for positive `num` and `den`. -/
def pointPosition (num den : Nat) : Int :=
  if den ≤ num then digitCount (num / den) else 1 - (digitCount ((den - 1) / num) : Int)

/-- A decimal number: the digits, without trailing zeros, and the power of ten of the first. -/
structure Scientific where
  digits : List Char
  exponent : Int
  deriving DecidableEq, Repr

/-- The decimal `n * 10 ^ exponent`, for positive `n`. -/
def Scientific.of (n : Nat) (exponent : Int) : Scientific :=
  let digits := Nat.toDigits 10 n
  { digits := (digits.reverse.dropWhile (· = '0')).reverse
    exponent := exponent + digits.length - 1 }

/-- No floating-point number needs more digits than this. -/
def mostDigits : Nat := 17

/-- The shortest decimal that is read as `mantissa * 2 ^ exponent`, for a positive mantissa. -/
def shortest (mantissa : Nat) (exponent : Int) : Scientific :=
  let range := ReadingRange.of mantissa exponent
  let position := pointPosition range.value range.den
  let onGrid (places : Nat) : Option Scientific :=
    let unit := position - (places + 1 : Nat)
    (range.inUnits unit).nearestInteger?.map (Scientific.of · unit)
  ((List.range mostDigits).findSome? onGrid).getD
    (let finest := range.inUnits (position - mostDigits)
     Scientific.of (roundDiv finest.value finest.den) (position - mostDigits))

end XmlLayout.Decimal

import XmlLayout.Decimal.Rounding

/-!
# Binary floating-point numbers of 64 bits

A finite number is a sign, a mantissa below `2 ^ 53` and an exponent between -1074 and 971; it
is `±mantissa * 2 ^ exponent`. The mantissa has its leading bit unless the exponent is the least
one, so each value but zero is written in one way. Everything is computed exactly and rounded
once, to nearest with ties to the even mantissa.

* `nearest` rounds a quotient of natural numbers, and gives nothing when it is too large.
* `quotient?` divides integers, `div` divides floating-point numbers.
* `roundPlaces` rounds the exact value to a number of decimal places.
-/

namespace XmlLayout.Decimal

/-- A floating-point number; a zero has a sign too. -/
inductive Binary64 where
  | finite (negative : Bool) (mantissa : Nat) (exponent : Int)
  | infinite (negative : Bool)
  | nan
  deriving DecidableEq, Repr

namespace Binary64

/-- The number of bits of a mantissa. -/
def precision : Nat := 53

/-- The exponent of the smallest positive number. -/
def leastExponent : Int := -1074

/-- The exponent of the largest finite number. -/
def greatestExponent : Int := 971

/-- Zero, with a sign. -/
def zero (negative : Bool) : Binary64 :=
  .finite negative 0 leastExponent

/-- Mantissa and exponent of the number nearest to `num / den`, before the check of its size. -/
def nearestParts (num den : Nat) : Nat × Int :=
  if num = 0 then (0, leastExponent)
  else
    let exponent := max (floorLog2 num den - (precision - 1)) leastExponent
    let scaled := scaleDown num den exponent
    let mantissa := roundDiv scaled.1 scaled.2
    if mantissa = Nat.pow 2 precision then (Nat.pow 2 (precision - 1), exponent + 1)
    else (mantissa, exponent)

/-- The number nearest to `±num / den`, unless that is past the largest finite number. -/
def nearest? (negative : Bool) (num den : Nat) : Option Binary64 :=
  let parts := nearestParts num den
  if parts.2 ≤ greatestExponent then some (.finite negative parts.1 parts.2) else none

/-- The number nearest to `±num / den`; an infinity when that is too large. -/
def nearest (negative : Bool) (num den : Nat) : Binary64 :=
  (nearest? negative num den).getD (.infinite negative)

/-- The quotient of two integers, the divisor not zero, rounded once. The sign of a zero is that
of the divisor, as the dividend zero has no sign. -/
def quotient? (a b : Int) : Option Binary64 :=
  nearest? (decide (a < 0) != decide (b < 0)) a.natAbs b.natAbs

/-- The magnitude of a finite number as a quotient. -/
def magnitude (mantissa : Nat) : Int → Nat × Nat
  | .ofNat n => (mantissa * Nat.pow 2 n, 1)
  | .negSucc n => (mantissa, Nat.pow 2 (n + 1))

/-- The quotient of two floating-point numbers. -/
def div : Binary64 → Binary64 → Binary64
  | .finite s m e, .finite t n f =>
    let sign := s != t
    if n = 0 then (if m = 0 then .nan else .infinite sign)
    else
      let x := magnitude m e
      let y := magnitude n f
      nearest sign (x.1 * y.2) (x.2 * y.1)
  | .finite s _ _, .infinite t => zero (s != t)
  | .infinite s, .finite t _ _ => .infinite (s != t)
  | _, _ => .nan

/-- A finite number rounded to `places` decimal places: its exact value goes to the nearest
decimal, a half to the even one, and the decimal to the nearest floating-point number. -/
def roundPlaces (places : Nat) : Binary64 → Binary64
  | .finite negative mantissa exponent =>
    let x := magnitude mantissa exponent
    nearest negative (roundDiv (x.1 * Nat.pow 10 places) x.2) (Nat.pow 10 places)
  | x => x

def isZero : Binary64 → Bool
  | .finite _ mantissa _ => mantissa = 0
  | _ => false

/-- Whether a finite number and an integer are the same number. -/
def equalsInt : Binary64 → Int → Bool
  | .finite negative mantissa exponent, n =>
    let x := magnitude mantissa exponent
    let signed : Int := if negative then -(x.1 : Int) else x.1
    signed = n * (x.2 : Int)
  | _, _ => false

/-- Whether two floating-point numbers are equal: the zeros are, and `nan` is equal to nothing. -/
def equals : Binary64 → Binary64 → Bool
  | .finite s m e, .finite t n f => (m = 0 && n = 0) || (s = t && m = n && e = f)
  | .infinite s, .infinite t => s = t
  | _, _ => false

end Binary64

end XmlLayout.Decimal

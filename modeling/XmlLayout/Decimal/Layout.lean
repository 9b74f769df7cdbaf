import XmlLayout.Decimal.Shortest

/-!
# How numbers are written

The digits of a number are chosen by `shortest`; what stands around them is chosen here, in one
record. A number always shows that it is not an integer: by a point, an exponent, or a word.
-/

namespace XmlLayout.Decimal

/-- The choices in writing a decimal number. -/
structure Layout where
  /-- The least power of ten of a first digit that is written without an exponent. -/
  leastPlain : Int
  /-- The least power of ten that needs an exponent again. -/
  firstLarge : Int
  /-- The fewest digits of an exponent. -/
  exponentDigits : Nat

/-- Numbers from `0.0001` up to below `10 ^ 16` are written plainly, and an exponent has at
least two digits. -/
def Layout.standard : Layout := ⟨-4, 16, 2⟩

/-- Digits with a point after the first `count` of them; zeros fill up what is missing. -/
def withPoint (digits : List Char) (count : Nat) : List Char :=
  let whole := digits.take count ++ List.replicate (count - digits.length) '0'
  let fraction := digits.drop count
  whole ++ '.' :: (if fraction = [] then ['0'] else fraction)

/-- An exponent with its sign. -/
def Layout.exponentText (layout : Layout) (exponent : Int) : List Char :=
  let digits := Nat.toDigits 10 exponent.natAbs
  (if exponent < 0 then '-' else '+') ::
    (List.replicate (layout.exponentDigits - digits.length) '0' ++ digits)

def Layout.text (layout : Layout) (number : Scientific) : List Char :=
  if number.exponent < layout.leastPlain ∨ layout.firstLarge ≤ number.exponent then
    number.digits.take 1 ++
      (if number.digits.length ≤ 1 then [] else '.' :: number.digits.drop 1) ++
      'e' :: layout.exponentText number.exponent
  else if number.exponent < 0 then
    withPoint (List.replicate number.exponent.natAbs '0' ++ number.digits) 1
  else
    withPoint number.digits (number.exponent.toNat + 1)

/-- A sign in front of negative numbers. -/
def signed (negative : Bool) (text : List Char) : String :=
  String.ofList (if negative then '-' :: text else text)

def Binary64.text : Binary64 → String
  | .finite negative mantissa exponent =>
    signed negative
      (if mantissa = 0 then ['0', '.', '0']
       else Layout.standard.text (shortest mantissa exponent))
  | .infinite negative => signed negative ['i', 'n', 'f']
  | .nan => "nan"

end XmlLayout.Decimal

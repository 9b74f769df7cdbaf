import XmlLayout.Decimal.Binary64

/-!
# Reading a decimal number

A decimal literal: a sign, digits with at most one point among them, and an exponent; or one of
the words for an infinity and for no number. The literal's exact value is rounded once.
-/

namespace XmlLayout.Decimal

/-- The digits at the front of a text. -/
def spanDigits (text : List Char) : List Char × List Char :=
  text.span Char.isDigit

def digitsValue (digits : List Char) : Nat :=
  digits.foldl (fun number c => 10 * number + (c.toNat - '0'.toNat)) 0

/-- An exponent mark with what follows it; no mark means no power of ten. -/
def exponent? : List Char → Option Int
  | [] => some 0
  | mark :: rest =>
    if mark = 'e' ∨ mark = 'E' then
      let (negative, digits) :=
        match rest with
        | '-' :: digits => (true, digits)
        | '+' :: digits => (false, digits)
        | digits => (false, digits)
      if digits ≠ [] ∧ digits.all Char.isDigit then
        let value : Int := digitsValue digits
        some (if negative then -value else value)
      else none
    else none

/-- The number nearest to `±digits * 10 ^ exponent`. Far beyond either end of the range the power
of ten is not computed. -/
def ofScientific (negative : Bool) (digits : Nat) (exponent : Int) : Binary64 :=
  let size : Int := exponent + (Nat.toDigits 10 digits).length
  if digits = 0 ∨ size < -400 then .zero negative
  else if 400 < size then .infinite negative
  else match exponent with
    | .ofNat n => .nearest negative (digits * Nat.pow 10 n) 1
    | .negSucc n => .nearest negative digits (Nat.pow 10 (n + 1))

/-- A literal without its sign. -/
def unsigned? (negative : Bool) (text : List Char) : Option Binary64 :=
  let lower := String.ofList (text.map Char.toLower)
  if lower = "inf" ∨ lower = "infinity" then some (.infinite negative)
  else if lower = "nan" then some .nan
  else
    let (whole, rest) := spanDigits text
    let (fraction, rest) :=
      match rest with
      | '.' :: more => spanDigits more
      | more => ([], more)
    if whole = [] ∧ fraction = [] then none
    else (exponent? rest).map fun exponent =>
      ofScientific negative (digitsValue (whole ++ fraction)) (exponent - fraction.length)

/-- The number that a decimal literal stands for. -/
def literal? (text : String) : Option Binary64 :=
  match text.toList with
  | '-' :: rest => unsigned? true rest
  | '+' :: rest => unsigned? false rest
  | rest => unsigned? false rest

end XmlLayout.Decimal

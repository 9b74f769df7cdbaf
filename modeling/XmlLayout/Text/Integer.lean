import XmlLayout.Text.Blank
import XmlLayout.Text.Digits

/-!
# Integers written by people

A decimal integer as the reader of the program accepts it: white space around it, one sign, digits
with single underscores between them, and a fraction of zeros alone. Zeros at its start do not count,
nor do underscores among and behind these; and behind these zeros, if there are any, the minus sign
may stand as well. At most `digitLimit` digits are read.
-/

namespace XmlLayout.Text

def digitValue? (c : Char) : Option Nat :=
  if c.isDigit then some (c.toNat - '0'.toNat) else none

/-- The values of digits with single underscores between them. -/
def digitValues? : List Char → Option (List Nat)
  | [] => none
  | [c] => (digitValue? c).map ([·])
  | c :: '_' :: rest => do
    let value ← digitValue? c
    let values ← digitValues? rest
    return value :: values
  | c :: d :: rest => do
    let value ← digitValue? c
    let values ← digitValues? (d :: rest)
    return value :: values

def natural? (text : List Char) : Option Nat :=
  match digitValues? text with
  | some values => if values.length ≤ digitLimit then some (ofDigits values) else none
  | none => none

/-- A natural number behind a minus sign that stands behind zeros. One underscore may follow the
sign, but no more zeros, unless the number is zero. -/
def lateNatural? (text : List Char) : Option Nat :=
  let digits := match text with
    | '_' :: rest => rest
    | _ => text
  if digits.head? = some '0' ∧ digits ≠ ['0'] then none else natural? digits

/-- A number without the zeros at its start, and without the underscores among and behind them. If
nothing of it is left in front of its fraction, one zero is. -/
def withoutZeros? : List Char → Option (List Char)
  | [] => none
  | c :: rest =>
    if c ≠ '0' then (if c.isDigit then some (c :: rest) else none)
    else
      let isIdle (c : Char) := c = '0' || c = '_'
      match rest.dropWhile isIdle with
      | [] => if (c :: rest).getLast? = some '0' then some ['0'] else none
      | next :: more =>
        if next = '.' then
          if (c :: rest.takeWhile isIdle).getLast? = some '0' then some ('0' :: next :: more)
          else none
        else if next = '-' ∨ next.isDigit then some (next :: more)
        else none

/-- Whether a text is empty, or a point with zeros behind it, at least one. -/
def isZeroFraction : List Char → Bool
  | [] => true
  | point :: zeros => point = '.' && zeros ≠ [] && zeros.all (· = '0')

/-- A text without a fraction of zeros; none if the fraction is anything else. -/
def whole? (text : List Char) : Option (List Char) :=
  if isZeroFraction (text.dropWhile (· ≠ '.')) then some (text.takeWhile (· ≠ '.')) else none

/-- A number without blanks and without a sign in front. -/
def unsigned? (text : List Char) : Option Int :=
  match (withoutZeros? text).bind whole? with
  | none => none
  | some ('-' :: digits) => (lateNatural? digits).map fun number => -(number : Int)
  | some digits => (natural? digits).map Int.ofNat

/-- The opposite of a number without blanks and without a sign of its own. -/
def negated? (text : List Char) : Option Int :=
  match (withoutZeros? text).bind whole? with
  | none => none
  | some digits => (natural? digits).map fun number => -(number : Int)

/-- An integer, with an optional sign and white space around it. -/
def integer? (text : String) : Option Int :=
  match trim isWhiteSpace text.toList with
  | '-' :: digits => negated? digits
  | '+' :: digits => unsigned? digits
  | digits => unsigned? digits

end XmlLayout.Text

/-!
# Decimal integers

A decimal integer is a row of digits, behind a sign or not. What else may be written for an integer
differs from one reader to another: white space around it, underscores between the digits, a fraction
of zeros. Some texts are an integer for none of them (`IsNoInteger`).
-/

namespace XmlLayout.Text

/-- The largest number of digits of an integer that is read. -/
def digitLimit : Nat := 4300

/-- The number whose decimal digits are `values`, the most significant first. -/
def ofDigits (values : List Nat) : Nat :=
  values.foldl (fun number value => 10 * number + value) 0

/-- The values of digits. -/
def digitValues (digits : List Char) : List Nat :=
  digits.map fun c => c.toNat - '0'.toNat

/-- A decimal integer: one or more digits, behind a sign or not. -/
inductive IsDecimal : String → Int → Prop
  | bare {digits : List Char} (hSome : digits ≠ []) (h : ∀ c ∈ digits, c.isDigit = true) :
      IsDecimal (String.ofList digits) (ofDigits (digitValues digits))
  | plus {digits : List Char} (hSome : digits ≠ []) (h : ∀ c ∈ digits, c.isDigit = true) :
      IsDecimal (String.ofList ('+' :: digits)) (ofDigits (digitValues digits))
  | minus {digits : List Char} (hSome : digits ≠ []) (h : ∀ c ∈ digits, c.isDigit = true) :
      IsDecimal (String.ofList ('-' :: digits)) (-ofDigits (digitValues digits))

/-- The digits of a text. -/
def digitsOf (text : String) : List Char :=
  text.toList.filter Char.isDigit

/-- The digits of a text behind the zeros at their start. -/
def countingDigits (text : String) : List Char :=
  (digitsOf text).dropWhile (· = '0')

/-- A visible character of ASCII that stands in no number. -/
def isStrange (c : Char) : Bool :=
  '!' ≤ c && c ≤ '~' && !c.isDigit && c ∉ ['_', '.', '-', '+']

/-- A text that is no integer, or one of too many digits. -/
inductive IsNoInteger (text : String) : Prop
  | strange {c : Char} (hMem : c ∈ text.toList) (h : isStrange c = true)
  | noDigit (h : ∀ c ∈ text.toList, c.toNat < 128 ∧ c.isDigit = false)
  | tooLong {n : Int} (hDecimal : IsDecimal text n)
      (h : digitLimit < (countingDigits text).length)

end XmlLayout.Text

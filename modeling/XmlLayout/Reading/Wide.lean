import XmlLayout.Reading.Source

/-!
# Texts in wide units

A text whose first or second byte is null cannot be a document as it stands: it is taken for one
that was written in units of two bytes, with the larger byte first or last. Two units that begin
with a high surrogate make one character.
-/

namespace XmlLayout.Reading

def bytes (text : List Char) : List Nat :=
  text.flatMap fun c => (String.utf8EncodeChar c).map UInt8.toNat

/-- Pairs of bytes as units; nothing if a byte is left over. -/
def units? (largerFirst : Bool) : List Nat → Option (List Nat)
  | [] => some []
  | [_] => none
  | a :: b :: rest =>
    (units? largerFirst rest).map ((if largerFirst then 256 * a + b else 256 * b + a) :: ·)

/-- The characters of units. What follows a high surrogate gives its lower ten bits. -/
def ofUnits? : List Nat → Option (List Char)
  | [] => some []
  | unit :: rest =>
    if 0xd800 ≤ unit ∧ unit < 0xdc00 then
      match rest with
      | [] => none
      | next :: rest =>
        (ofUnits? rest).map (Char.ofNat (0x10000 + unit % 0x400 * 0x400 + next % 0x400) :: ·)
    else if 0xdc00 ≤ unit ∧ unit < 0xe000 then none
    else (ofUnits? rest).map (Char.ofNat unit :: ·)

/-- The text that units make, as a document in units of two bytes. -/
def ofWide? (units : Option (List Nat)) : Option (Source × List Char) :=
  (units.bind ofUnits?).map fun text => (.wide, text)

/-- A document as it was meant. -/
def decoded? (text : List Char) : Option (Source × List Char) :=
  match text with
  | '\x00' :: _ => ofWide? (units? true (bytes text))
  | c :: '\x00' :: _ =>
    if c.utf8Size = 1 then ofWide? (units? false (bytes text)) else some (.narrow, text)
  | _ => some (.narrow, text)

/-- A text without null characters is meant as it stands. -/
theorem decoded?_of_not_mem {text : List Char} (h : '\x00' ∉ text) :
    decoded? text = some (.narrow, text) := by
  unfold decoded?
  split
  · simp at h
  · simp at h
  · rfl

end XmlLayout.Reading

import XmlLayout.Text.Ranges

/-!
# Blank characters

White space in the wide sense: the characters with the Unicode property *White_Space*, and the
four information separators U+001C to U+001F. A text of blanks alone says nothing beside the
children of an element. XML itself knows only four of these (`XmlLayout.Reading.isSpace`).
-/

namespace XmlLayout.Text

def whiteSpace : List (Nat × Nat) := [
  (0x9, 0xd), (0x20, 0x20), (0x85, 0x85), (0xa0, 0xa0), (0x1680, 0x1680), (0x2000, 0x200a),
  (0x2028, 0x2029), (0x202f, 0x202f), (0x205f, 0x205f), (0x3000, 0x3000)]

def isWhiteSpace (c : Char) : Bool :=
  inRanges whiteSpace c

/-- The information separators: file, group, record and unit. -/
def isSeparator (c : Char) : Bool :=
  0x1c ≤ c.toNat && c.toNat ≤ 0x1f

def isBlank (c : Char) : Bool :=
  isWhiteSpace c || isSeparator c

/-- Whether a text holds nothing but blanks. The empty text does. -/
def onlyBlanks (text : String) : Bool :=
  text.toList.all isBlank

/-- A text without the leading and trailing characters of a class. -/
def trim (kind : Char → Bool) (text : List Char) : List Char :=
  ((text.dropWhile kind).reverse.dropWhile kind).reverse

/-- Every character that the core library counts as white space has the property. -/
theorem isWhiteSpace_of_isWhitespace {c : Char} (h : c.isWhitespace = true) :
    isWhiteSpace c = true := by
  simp only [Char.isWhitespace, Bool.or_eq_true, decide_eq_true_eq] at h
  rcases h with ((h | h) | h) | h <;> subst h <;> decide

/-- Nothing is left after the leading characters of a class exactly when there are no others. -/
theorem dropWhile_eq_nil_iff_all {kind : Char → Bool} {text : List Char} :
    text.dropWhile kind = [] ↔ text.all kind = true := by
  induction text with
  | nil => simp
  | cons c rest ih => by_cases hc : kind c <;> simp [hc, ih]

/-- A text is all of one class exactly when trimming leaves nothing of it. -/
theorem trim_eq_nil_iff {kind : Char → Bool} {text : List Char} :
    trim kind text = [] ↔ text.all kind = true := by
  rw [trim, List.reverse_eq_nil_iff, dropWhile_eq_nil_iff_all, List.all_reverse]
  constructor
  · intro h
    rw [← List.takeWhile_append_dropWhile (p := kind) (l := text), List.all_append, h,
      Bool.and_true, List.all_takeWhile]
  · intro h
    rw [dropWhile_eq_nil_iff_all.2 h, List.all_nil]

end XmlLayout.Text

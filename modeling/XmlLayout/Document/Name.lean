/-!
# Legal names

The names that elements and attributes may have: a letter or an underscore, and then letters,
digits, underscores, hyphens and points, all of them ASCII. They are the XML names without a
colon that ASCII can write.
-/

namespace XmlLayout.Document

/-- What a legal name begins with. -/
def isFirst (c : Char) : Bool :=
  c.isAlpha || c = '_'

/-- What may follow in a legal name. -/
def isFollow (c : Char) : Bool :=
  isFirst c || c.isDigit || c = '-' || c = '.'

def isLegalChars : List Char → Bool
  | [] => false
  | c :: rest => isFirst c && rest.all isFollow

def isLegalName (name : String) : Bool :=
  isLegalChars name.toList

theorem isFollow_of_isFirst {c : Char} (h : isFirst c = true) : isFollow c = true := by
  simp [isFollow, h]

/-- Names are made of printable characters of ASCII. -/
theorem range_of_isFollow {c : Char} (h : isFollow c = true) :
    0x20 < c.toNat ∧ c.toNat < 0x80 := by
  have hAlpha : c.isAlpha = (decide ('A'.val ≤ c.val ∧ c.val ≤ 'Z'.val) ||
    (decide ('a'.val ≤ c.val) && decide (c.val ≤ 'z'.val))) := rfl
  have hDigit : c.isDigit = (decide ('0'.val ≤ c.val) && decide (c.val ≤ '9'.val)) := rfl
  have hNat : c.val.toNat = c.toNat := rfl
  simp only [isFollow, isFirst, hAlpha, hDigit, Bool.or_eq_true, Bool.and_eq_true,
    decide_eq_true_eq, UInt32.le_iff_toNat_le] at h
  rcases h with ((((⟨hLow, hHigh⟩ | ⟨hLow, hHigh⟩) | rfl) | ⟨hLow, hHigh⟩) | rfl) | rfl
  · simp at hLow hHigh
    omega
  · simp at hLow hHigh
    omega
  · decide
  · simp at hLow hHigh
    omega
  · decide
  · decide

/-- Every character of a legal name may follow in one. -/
theorem all_isFollow_of_isLegalChars {name : List Char} (h : isLegalChars name = true) :
    name.all isFollow = true := by
  cases name with
  | nil => simp [isLegalChars] at h
  | cons c rest =>
    simp only [isLegalChars, Bool.and_eq_true] at h
    simp only [List.all_cons, isFollow_of_isFirst h.1, h.2, Bool.and_self]

end XmlLayout.Document

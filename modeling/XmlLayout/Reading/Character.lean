import XmlLayout.Document.Name
import XmlLayout.Reading.NameTable

/-!
# The characters of XML

Which characters a document may hold at all, which of them are white space in markup, and which
make up names. A legal name (`XmlLayout.Document.isLegalName`) is a name of XML.
-/

namespace XmlLayout.Reading

/-- Whether a character may occur in a document, be it by a reference. -/
def isChar (c : Char) : Bool :=
  c = '\t' || c = '\n' || c = '\r' ||
    (0x20 ≤ c.toNat && c.toNat ≤ 0xfffd) || 0x10000 ≤ c.toNat

/-- White space between the parts of markup. -/
def isSpace (c : Char) : Bool :=
  c = ' ' || c = '\t' || c = '\n' || c = '\r'

/-- What a name begins with, a colon apart. -/
def isNameStart (c : Char) : Bool :=
  Document.isFirst c || Text.inRanges letters c

/-- What may stand in a name, a colon apart. -/
def isNameChar (c : Char) : Bool :=
  Document.isFollow c || Text.inRanges letters c || Text.inRanges nameMarks c

theorem isNameChar_of_isNameStart {c : Char} (h : isNameStart c = true) :
    isNameChar c = true := by
  simp only [isNameStart, Bool.or_eq_true] at h
  rcases h with h | h
  · simp [isNameChar, Document.isFollow_of_isFirst h]
  · simp [isNameChar, h]

end XmlLayout.Reading

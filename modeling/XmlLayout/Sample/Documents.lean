import XmlLayout.Document.Node
import XmlLayout.Sample.Draws

/-!
# Sample documents

Documents made by choices, within bounds on their depth and on the number of children of an
element. Their names are legal and do not begin with the letter that reserved names begin with;
their texts and values are printable ASCII; a text stands only in an element without children.
All of them can be written.
-/

namespace XmlLayout.Sample

open Document

structure Bounds where
  deepest : Int := 6
  widest : Int := 8

/-- What the names of sample documents begin with, in order of code points. -/
def nameStarts : List Char :=
  ((List.range 128).map Char.ofNat).filter fun c => isFirst c && c ≠ 'x' && c ≠ 'X'

/-- What may follow in a name, in order of code points. -/
def nameFollows : List Char :=
  ((List.range 128).map Char.ofNat).filter isFollow

/-- The printable characters of ASCII, in order of code points. -/
def textChars : List Char :=
  (List.range 95).map fun i => Char.ofNat (32 + i)

theorem length_nameStarts_pos : 0 < nameStarts.length := by decide

theorem length_nameFollows_pos : 0 < nameFollows.length := by decide

theorem length_textChars_pos : 0 < textChars.length := by decide

/-- A name: its first character, then how many follow, then these. -/
def name : Sampling String := do
  let first ← choose nameStarts length_nameStarts_pos
  let count ← draw 12 (by decide)
  let rest ← repeatedly (choose nameFollows length_nameFollows_pos) count
  return String.ofList (first :: rest)

/-- A text of fewer than `limit` printable characters: how many, then these. -/
def text (limit : Nat) (h : 0 < limit) : Sampling String := do
  let count ← draw limit h
  let chars ← repeatedly (choose textChars length_textChars_pos) count
  return String.ofList chars

/-- Gives one more attribute a value, which is chosen before its name. -/
def addAttribute (attributes : Attributes) : Sampling Attributes := do
  let value ← text 20 (by decide)
  let key ← name
  return attributes.insert key value

/-- Adds attributes several times. A name that is chosen again gets a new value. -/
def addAttributes (attributes : Attributes) : Nat → Sampling Attributes
  | 0 => return attributes
  | n + 1 => do
    let more ← addAttribute attributes
    addAttributes more n

/-- At most two attributes. -/
def attributes : Sampling Attributes := do
  let count ← draw 3 (by decide)
  addAttributes .empty count

/-- The text of an element: only without children, and then by choice. -/
def elementText (hasChildren : Bool) : Sampling (Option String) :=
  if hasChildren then return none
  else do
    let wanted ← draw 2 (by decide)
    if wanted = 0 then return none else some <$> text 40 (by decide)

/-- An element at a depth. It may have children if a number up to the greatest depth, chosen
anew for each element, is above its own depth; so the recursion ends. -/
def element (bounds : Bounds) (depth : Int) : Sampling Node := do
  let name ← name
  let attributes ← attributes
  let ⟨gate, hGate⟩ ← below (bounds.deepest + 1)
  if hDeeper : depth < gate then
    let count ← below (bounds.widest + 1)
    let children ← repeatedly (element bounds (depth + 1)) count
    let text ← elementText (!children.isEmpty)
    return .element ⟨name, attributes, text⟩ children
  else
    let text ← elementText false
    return .element ⟨name, attributes, text⟩ []
termination_by (bounds.deepest - depth).toNat
decreasing_by omega

def document (bounds : Bounds) : Sampling Node :=
  element bounds 0

end XmlLayout.Sample

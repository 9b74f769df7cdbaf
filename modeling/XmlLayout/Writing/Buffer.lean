import XmlLayout.Error
import XmlLayout.Length
import XmlLayout.Text.Lines

/-!
# Text buffers

A text with a position in it, counted in characters. Writing replaces what stands at the
position, and goes past the end if need be. The position may be set past the end; a gap that
writing leaves there is filled with the null character, unless the buffer would become longer than
there can be.
-/

namespace XmlLayout.Writing

structure Buffer where
  text : String
  position : Nat
  deriving DecidableEq, Repr

namespace Buffer

def empty : Buffer :=
  ⟨"", 0⟩

instance : Inhabited Buffer :=
  ⟨empty⟩

/-- The characters of `text` after `piece` was written at `position`. -/
def overwrite (text piece : List Char) (position : Nat) : List Char :=
  text.take position ++ List.replicate (position - text.length) '\x00' ++ piece ++
    text.drop (position + piece.length)

/-- The number of bytes that a character takes. -/
def charSize : Nat := 4

/-- The largest number of characters in a buffer: two places are kept free. -/
def roomiest : Nat := Nat.pow 2 64 / charSize - 3

/-- Why a gap cannot be left in front of what ends at `stop`, if it cannot. -/
def gapFault? (stop : Nat) : Option Error :=
  if roomiest < stop then some .bufferTooLarge
  else if memoryLimit < charSize * stop then some .outOfMemory
  else none

/-- Writes at the position, and goes behind what was written. Writing nothing changes nothing. -/
def write (b : Buffer) (piece : String) : Except Error Buffer :=
  let stop := b.position + piece.length
  if piece = "" then .ok b
  else if largestLength < stop then .error .endTooLarge
  else match if b.text.length < b.position then gapFault? stop else none with
    | some cause => .error cause
    | none => .ok {
        text := String.ofList (overwrite b.text.toList piece.toList b.position)
        position := stop }

/-- Sets the position, which cannot lie before the start. -/
def seek (b : Buffer) (position : Int) : Except Error Buffer :=
  if !fitsWord position then .error .numberTooLarge
  else match position with
    | .ofNat position => .ok { b with position := position }
    | .negSucc n => .error (.negativePosition (.negSucc n))

/-- The text from the position on, and the buffer at its end. A position past the end stays. -/
def read (b : Buffer) : String × Buffer :=
  let rest := b.text.toList.drop b.position
  (String.ofList rest, { b with position := b.position + rest.length })

def lines (b : Buffer) : List String :=
  Text.lines b.text

/-- A buffer that holds a text, with the position at its end. -/
def written (text : String) : Buffer :=
  ⟨text, text.length⟩

/-- Writing at the end of a text appends to it. -/
theorem overwrite_length (text piece : List Char) :
    overwrite text piece text.length = text ++ piece := by
  simp [overwrite, List.drop_eq_nil_of_le]

/-- Writing at the end appends, and the position is at the new end. -/
theorem write_written (text piece : String)
    (h : (text.length + piece.length : Int) ≤ largestLength) :
    (written text).write piece = .ok (written (text ++ piece)) := by
  have hStop : ¬largestLength < ((text.length + piece.length : Nat) : Int) := by
    rw [Int.natCast_add]
    omega
  unfold write written
  split
  · rename_i hEmpty
    simp [hEmpty]
  · simp only [hStop, if_false, Nat.lt_irrefl]
    simp only [Except.ok.injEq, Buffer.mk.injEq]
    refine ⟨?_, by rw [String.length_append]⟩
    rw [← String.toList_inj, String.toList_ofList, String.toList_append, ← String.length_toList,
      overwrite_length]

end Buffer

end XmlLayout.Writing

import XmlLayout.Error
import XmlLayout.Length

/-!
# The store of indents

A row of slots that is filled as indents are needed. A slot past the end makes the row longer,
relative to the slot that is asked for. The highest slot ever filled is remembered; while only
the first slot has been filled, and before, it is slot 0.

* `get?_put` says that the row is a map: a filled slot gives its text, and the others stay.
* `capacity_put` says how the row grows.
-/

namespace XmlLayout.Indent

/-- A row of slots, and the highest slot filled. -/
structure Slots where
  cells : Array (Option String)
  highest : Nat
  deriving DecidableEq

namespace Slots

/-- A row of empty slots. -/
def replicate (size : Nat) : Slots :=
  ⟨Array.replicate size none, 0⟩

/-- The number of bytes that a slot takes. -/
def slotSize : Int := 8

/-- Why there cannot be `count` more slots, if there cannot. Fewer slots are no demand. -/
def countFault? (count : Int) : Option Error :=
  if !fitsWord count then some .sizeTooLarge
  else if memoryLimit < slotSize * count then some .outOfMemory
  else none

/-- Why there can be no row of `size` slots, if there can be none. -/
def sizeFault? (size : Int) : Option Error :=
  if size < 0 then some .negativeSize else countFault? size

/-- A row of `size` empty slots, if there can be so many. -/
def ofSize (size : Int) : Except Error Slots :=
  match sizeFault? size with
  | none => .ok (replicate size.toNat)
  | some cause => .error cause

def capacity (s : Slots) : Nat :=
  s.cells.size

/-- The text in a slot, if there is such a slot and it is filled. -/
def get? (s : Slots) (i : Nat) : Option String :=
  s.cells[i]?.join

/-- The text in a slot; below the first slot there is none. -/
def lookup (s : Slots) : Int → Option String
  | .ofNat i => s.get? i
  | .negSucc _ => none

/-- At least `size` slots. No slot is given up. -/
def grow (s : Slots) (size : Nat) : Slots :=
  { s with cells := s.cells ++ Array.replicate (size - s.cells.size) none }

/-- At least `size` slots, if there can be so many; fewer than there are is no demand. -/
def resize (s : Slots) (size : Int) : Except Error Slots :=
  match countFault? (size - s.capacity) with
  | none => .ok (s.grow size.toNat)
  | some cause => .error cause

/-- The number of slots that room for slot `i` is made by, if there is none yet. -/
def roomFor (i : Nat) : Nat :=
  max (2 * i) 1

def makeRoom (s : Slots) (i : Nat) : Slots :=
  if i < s.capacity then s else s.grow (roomFor i)

/-- Fills slot `i`. -/
def put (s : Slots) (i : Nat) (text : String) : Slots where
  cells := (s.makeRoom i).cells.setIfInBounds i (some text)
  highest := max s.highest i

/-- Fills a slot, unless it lies below the first or there cannot be room for it. -/
def set (s : Slots) (i : Int) (text : String) : Except Error Slots :=
  match i with
  | .ofNat i =>
    match if i < s.capacity then none else countFault? (roomFor i - s.capacity) with
    | none => .ok (s.put i text)
    | some cause => .error cause
  | .negSucc _ => .error .negativeSlot

/-! ## The row as a map -/

@[simp]
theorem get?_replicate (size i : Nat) : (replicate size).get? i = none := by
  simp only [get?, replicate, Array.getElem?_replicate]
  split <;> rfl

/-- New slots are empty. -/
@[simp]
theorem get?_grow (s : Slots) (size i : Nat) : (s.grow size).get? i = s.get? i := by
  simp only [get?, grow]
  by_cases h : i < s.cells.size
  · rw [Array.getElem?_append_left h]
  · rw [Array.getElem?_append_right (by omega), Array.getElem?_replicate,
      Array.getElem?_eq_none (by omega : s.cells.size ≤ i)]
    split <;> rfl

@[simp]
theorem get?_makeRoom (s : Slots) (i j : Nat) : (s.makeRoom i).get? j = s.get? j := by
  simp only [makeRoom]
  split <;> simp

@[simp]
theorem capacity_grow (s : Slots) (size : Nat) :
    (s.grow size).capacity = max s.capacity size := by
  simp only [capacity, grow, Array.size_append, Array.size_replicate]
  omega

theorem lt_capacity_makeRoom (s : Slots) (i : Nat) : i < (s.makeRoom i).capacity := by
  simp only [makeRoom]
  split
  · assumption
  · rw [capacity_grow, roomFor]
    omega

/-- A filled slot gives its text, and the others stay. -/
theorem get?_put (s : Slots) (i j : Nat) (text : String) :
    (s.put i text).get? j = if j = i then some text else s.get? j := by
  rw [← get?_makeRoom s i j]
  simp only [get?, put, Array.getElem?_setIfInBounds]
  by_cases h : j = i
  · subst h
    have hRoom := lt_capacity_makeRoom s j
    simp only [capacity] at hRoom
    simp [hRoom]
  · simp [h, Ne.symm h]

/-- A slot within the row leaves its length; one past its end makes it `max (2 * i) 1`. -/
theorem capacity_put (s : Slots) (i : Nat) (text : String) :
    (s.put i text).capacity = if i < s.capacity then s.capacity else max (2 * i) 1 := by
  have hSize : (s.put i text).capacity = (s.makeRoom i).capacity := by
    simp [capacity, put]
  rw [hSize]
  simp only [makeRoom]
  by_cases h : i < s.capacity
  · rw [if_pos h, if_pos h]
  · rw [if_neg h, if_neg h, capacity_grow, roomFor]
    omega

@[simp]
theorem highest_put (s : Slots) (i : Nat) (text : String) :
    (s.put i text).highest = max s.highest i :=
  rfl

end Slots

end XmlLayout.Indent

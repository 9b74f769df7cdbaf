import XmlLayout.Indent.Slots

/-!
# Indents by level

Elements nest: opening one goes a level deeper, closing one comes back. An indent is a line feed
and `step` spaces for each level; with a `step` of zero or less there are no indents. The indent
of a level is kept in the slot of that level. An indent of more spaces than there can be is refused,
and the slots stay as they were.

* `push` gives the indent in front of an opening tag and goes deeper. At the document level that
  is nothing, as nothing stands before the root.
* `pop` comes back and gives the indent in front of a closing tag. Closing more than was opened
  gives nothing, or is refused by a strict stack.
* `reset` goes to the document level and keeps the slots.

Until a second level has been reached the indent at the document level is withheld: a root
without children closes on its own line. The highest slot filled tells whether it has been.
-/

namespace XmlLayout.Indent

/-- What becomes of an indent that has been made before. -/
inductive Reuse where
  /-- The indent in the slot is given again. -/
  | fromSlot
  /-- The indent is made anew each time, and replaces the one in the slot. -/
  | never
  deriving DecidableEq, Repr

structure Stack where
  step : Int
  strict : Bool
  reuse : Reuse
  /-- The number of open levels; negative after more were closed than opened. -/
  depth : Int
  /-- The number of spaces that the current level is indented by. -/
  width : Int
  slots : Slots
  deriving DecidableEq

/-- How a stack is set up. -/
structure Setup where
  step : Int := 3
  size : Int := 16
  strict : Bool := false
  reuse : Reuse := .fromSlot

/-- A line feed and `width` spaces; no spaces if that is negative. -/
def indentText (width : Int) : String :=
  "\n".pushn ' ' width.toNat

theorem toList_pushn (s : String) (c : Char) (n : Nat) :
    (s.pushn c n).toList = s.toList ++ List.replicate n c := by
  rw [String.pushn_eq_repeat_push]
  induction n with
  | zero => simp [Nat.repeat]
  | succ n ih => simp [Nat.repeat, ih, List.replicate_succ']

/-- An indent is a line feed and its spaces. -/
theorem toList_indentText (width : Int) :
    (indentText width).toList = '\n' :: List.replicate width.toNat ' ' :=
  toList_pushn "\n" ' ' width.toNat

namespace Stack

/-- A fresh stack at the document level. Without indents it has no slots, whatever `size` is. -/
def fresh (step : Int) (size : Nat) (strict : Bool) (reuse : Reuse) : Stack where
  step := step
  strict := strict
  reuse := reuse
  depth := 0
  width := 0
  slots := .replicate (if 0 < step then size else 0)

/-- A fresh stack as it is set up. The number of slots is looked at only if there are indents. -/
def ofSetup (setup : Setup) : Except Error Stack :=
  match Slots.sizeFault? (if 0 < setup.step then setup.size else 0) with
  | none => .ok (fresh setup.step setup.size.toNat setup.strict setup.reuse)
  | some cause => .error cause

/-- A lenient stack that gives indents again, with sixteen slots. -/
def ofStep (step : Int) : Stack :=
  fresh step 16 false .fromSlot

/-- The indent that a slot offers for use. -/
def offered? (s : Stack) (level : Nat) : Option String :=
  match s.reuse with
  | .fromSlot => s.slots.get? level
  | .never => none

/-- An indent, unless only the document level has been seen. -/
def gated (slots : Slots) (text : String) : String :=
  if 0 < slots.highest then text else ""

/-- Why there can be no indent of `width` spaces, if there can be none. -/
def widthFault? (width : Int) : Option Error :=
  if largestLength < width then some .widthTooLarge
  else if memoryLimit < width then some .outOfMemory
  else none

theorem widthFault?_eq_none_iff {width : Int} :
    widthFault? width = none ↔ width ≤ memoryLimit := by
  have hLess : memoryLimit ≤ largestLength := by decide
  unfold widthFault?
  by_cases hWord : largestLength < width
  · simp only [hWord, if_true, reduceCtorEq, false_iff]
    omega
  · by_cases hMemory : memoryLimit < width
    · simp only [hWord, hMemory, if_false, if_true, reduceCtorEq, false_iff]
      omega
    · simp only [hWord, hMemory, if_false, true_iff]
      omega

/-- The indent of a level, and the slots afterwards. An indent that is too wide cannot be made. For its
slot there is room up to a level that no run comes to (`set_after_fresh`). -/
def indentAt (s : Stack) : Int → Except Error (String × Slots)
  | .negSucc _ => .ok ("", s.slots)
  | .ofNat level =>
    if s.step ≤ 0 then .ok ("", s.slots)
    else match s.offered? level with
      | some text => .ok (gated s.slots text, s.slots)
      | none =>
        match widthFault? s.width with
        | some cause => .error cause
        | none =>
          let text := indentText s.width
          let slots := s.slots.put level text
          .ok (gated slots text, slots)

/-- What a level adds to the width. -/
def stride (s : Stack) : Int :=
  if 0 < s.step then s.step else 0

/-- The indent in front of an opening tag, and the stack one level deeper. Without an indent the stack
stays where it is. -/
def push (s : Stack) : Except Error String × Stack :=
  match s.indentAt s.depth with
  | .error cause => (.error cause, s)
  | .ok (text, slots) => (.ok (if s.depth = 0 then "" else text),
      { s with depth := s.depth + 1, width := s.width + s.stride, slots := slots })

/-- The indent in front of a closing tag, and the stack one level up. Unless it is refused, the stack
comes back before the indent is made. -/
def pop (s : Stack) : Except Error String × Stack :=
  if s.depth - 1 < 0 ∧ s.strict = true then (.error .belowDocument, s)
  else
    let up := { s with depth := s.depth - 1, width := s.width - s.stride }
    match up.indentAt up.depth with
    | .error cause => (.error cause, up)
    | .ok (text, slots) => (.ok text, { up with slots := slots })

/-- The stack at the document level, with all its slots. -/
def reset (s : Stack) : Stack :=
  { s with depth := 0, width := 0 }

/-- The highest level whose indent was ever made. -/
def reached (s : Stack) : Nat :=
  s.slots.highest

/-- The number of spaces of the current level, as a length. -/
def length (s : Stack) : Except Error Nat :=
  if largestLength < s.width then .error .widthTooLarge else .ok s.width.toNat

def shown (s : Stack) : String :=
  "<Indenter depth=" ++ toString s.depth ++ " step=" ++ toString s.step ++
    " cached=" ++ toString s.reached ++ ">"

end Stack

end XmlLayout.Indent

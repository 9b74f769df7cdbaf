import XmlLayout.Reading.Source

/-!
# References

An ampersand begins a reference, and a semicolon ends it. A reference gives a character by its
number, or names an entity, which stands for a text. Five entities stand for single characters in
every document. A text is a sequence of pieces: the characters it gives by itself or by number, and
the entities it refers to. Each piece takes some bytes of the text.
-/

namespace XmlLayout.Reading

/-! ## Characters by number -/

/-- The value of a digit in a base of at most sixteen. -/
def digit? (base : Nat) (c : Char) : Option Nat :=
  let value? :=
    if c.isDigit then some (c.toNat - '0'.toNat)
    else if 'a' ≤ c ∧ c ≤ 'f' then some (c.toNat - 'a'.toNat + 10)
    else if 'A' ≤ c ∧ c ≤ 'F' then some (c.toNat - 'A'.toNat + 10)
    else none
  value?.filter (· < base)

/-- There is no code point from here on. -/
def codePointEnd : Nat := 0x110000

/-- The code point that digits stand for. -/
def number? (base : Nat) (digits : List Char) : Option Nat :=
  digits.foldlM (fun n c => ((digit? base c).map (base * n + ·)).filter (· < codePointEnd)) 0

/-- The character with a code point written in a base, if a document may hold it. -/
def codePoint? (base : Nat) (digits : List Char) : Option Char :=
  if digits = [] then none
  else match number? base digits with
    | none => none
    | some n =>
      if n.isValidChar ∧ isChar (Char.ofNat n) then some (Char.ofNat n) else none

/-! ## Pieces -/

inductive Piece where
  /-- A character that stands for itself. -/
  | plain (c : Char)
  /-- A character that is given by its number. -/
  | numbered (c : Char)
  /-- A reference to the entity of a name. -/
  | entity (name : List Char)
  deriving DecidableEq

/-- Whether a text is a name without a colon. -/
def isName (src : Source) : List Char → Bool
  | [] => false
  | c :: rest => src.isNameStart c && rest.all src.isNameChar

/-- The piece that a reference gives, by what is between its ampersand and its semicolon. -/
def Piece.ofReference? (src : Source) : List Char → Option Piece
  | '#' :: 'x' :: digits => (codePoint? 16 digits).map .numbered
  | '#' :: digits => (codePoint? 10 digits).map .numbered
  | name => if isName src name then some (.entity name) else none

/-- The entities that stand for a character in every document. -/
def predefined? : List Char → Option Char
  | ['a', 'm', 'p'] => some '&'
  | ['l', 't'] => some '<'
  | ['g', 't'] => some '>'
  | ['a', 'p', 'o', 's'] => some '\''
  | ['q', 'u', 'o', 't'] => some '"'
  | _ => none

/-- What taking a text apart has come to. -/
structure Apart where
  /-- The pieces so far, the last one first, each with the number of its bytes. -/
  done : List (Piece × Nat)
  /-- What was read of an unfinished reference, backwards, and the number of its bytes. -/
  reference : Option (List Char × Nat)

/-- Takes one more character with the number of its bytes into account. -/
def Apart.step (src : Source) (a : Apart) : Char × Nat → Option Apart
  | (c, n) => match a.reference with
    | none =>
      some (if c = '&' then { a with reference := some ([], n) }
        else { a with done := (.plain c, n) :: a.done })
    | some (body, size) =>
      if c = ';' then
        (Piece.ofReference? src body.reverse).map fun piece => ⟨(piece, size + n) :: a.done, none⟩
      else some { a with reference := some (c :: body, size + n) }

/-- The pieces of measured characters; none if a reference is wrong or unfinished. -/
def piecesOf? (src : Source) (chars : List (Char × Nat)) : Option (List (Piece × Nat)) :=
  match chars.foldlM (Apart.step src) ⟨[], none⟩ with
  | some ⟨done, none⟩ => some done.reverse
  | _ => none

def pieces? (src : Source) (text : List Char) : Option (List (Piece × Nat)) :=
  piecesOf? src (src.measured text)

theorem foldlM_step_of_not_mem {src : Source} {chars : List (Char × Nat)}
    (h : ∀ c ∈ chars, c.1 ≠ '&') (done : List (Piece × Nat)) :
    chars.foldlM (Apart.step src) ⟨done, none⟩ =
      some ⟨(chars.map fun c => (Piece.plain c.1, c.2)).reverse ++ done, none⟩ := by
  induction chars generalizing done with
  | nil => rfl
  | cons c rest ih =>
    have hc := h c (by simp)
    have hRest : ∀ c ∈ rest, c.1 ≠ '&' := fun d hd => h d (by simp [hd])
    simp [Apart.step, hc, ih hRest]

/-- Measured characters without an ampersand stand for themselves. -/
theorem piecesOf?_of_not_mem {src : Source} {chars : List (Char × Nat)}
    (h : ∀ c ∈ chars, c.1 ≠ '&') :
    piecesOf? src chars = some (chars.map fun c => (.plain c.1, c.2)) := by
  simp [piecesOf?, foldlM_step_of_not_mem h]

end XmlLayout.Reading

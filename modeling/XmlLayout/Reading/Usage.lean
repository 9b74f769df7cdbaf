import XmlLayout.Reading.Source

/-!
# How much is read

A document may name an entity again and again, and its entities each other. So that a short document
does not become an endless one, the bytes that are read are counted: those of the document, and
those that the texts of entities add. As long as there are few of them in all, or not many times as
many as the document has so far, reading goes on (`Usage.isFair`).

Bytes are counted part by part, and the check is made behind each part.
-/

namespace XmlLayout.Reading

/-- How many bytes have been read. -/
structure Usage where
  /-- Bytes of the document. -/
  written : Nat
  /-- Bytes that the texts of entities have added. -/
  added : Nat

/-- To what bytes are counted. -/
inductive Account where
  | written
  | added
  /-- They have been counted before. -/
  | closed
  deriving DecidableEq

/-- To what the bytes of a text are counted. -/
def Source.account (src : Source) : Account :=
  if src = .entity then .added else .written

namespace Usage

/-- Fewer bytes than this are always fair. -/
def fairSize : Nat := Nat.pow 2 23

/-- How many times as many bytes as the document has are always fair. -/
def fairRatio : Nat := 100

def isFair (u : Usage) : Bool :=
  u.written + u.added < fairSize || u.written + u.added ≤ fairRatio * u.written

def note (account : Account) (n : Nat) (u : Usage) : Usage :=
  match account with
  | .written => { u with written := u.written + n }
  | .added => { u with added := u.added + n }
  | .closed => u

/-- Goes on only if that is fair. -/
def check (u : Usage) : Option Usage :=
  if u.isFair then some u else none

/-- Counts the bytes of a part and goes on. -/
def charge (account : Account) (n : Nat) (u : Usage) : Option Usage :=
  (u.note account n).check

/-- Counts the bytes of one character of a part, or of what is a part by itself. -/
def pass (account : Account) (isPart : Bool) (n : Nat) (u : Usage) : Option Usage :=
  if isPart then u.check.bind (charge account n) else some (u.note account n)

/-- Texts of entities that add at most ninety-nine times the bytes of the document are fair. -/
theorem isFair_of_le {u : Usage} (h : u.added ≤ 99 * u.written) : u.isFair = true := by
  have hTotal : u.written + u.added ≤ fairRatio * u.written := by
    rw [fairRatio]
    omega
  simp [isFair, hTotal]

end Usage

end XmlLayout.Reading

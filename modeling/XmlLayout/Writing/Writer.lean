import XmlLayout.Indent.Moves
import XmlLayout.Writing.Buffer
import XmlLayout.Writing.Encoding

/-!
# Writers

A writer is a buffer with a stack of levels. Encoding a tree empties the buffer first, and starts
at the document level whatever state the stack was left in. Several writers may share one stack:
they sit at one desk.
-/

namespace XmlLayout.Writing

open Document Indent

/-- A buffer and the stack that its indents come from. -/
structure Writer where
  stack : Stack
  buffer : Buffer

inductive Task where
  | encode (root : Node)
  | write (piece : String)
  | seek (position : Int)
  | read
  | lines
  /-- A move on the stack, past the buffer. -/
  | move (m : Move)

inductive Answer where
  | done
  | failed (cause : Error)
  | text (s : String)
  | number (n : Int)
  | lines (all : List String)
  deriving DecidableEq

def Answer.ofReply : Reply → Answer
  | .text s => .text s
  | .done => .done
  | .refused cause => .failed cause

namespace Writer

def ofStack (stack : Stack) : Writer :=
  ⟨stack, .empty⟩

/-- Replaces the content of the buffer by a tree. What was written before a failure stays. -/
def encode (w : Writer) (root : Node) : Option Error × Writer :=
  let result := encodeWith w.stack root
  (result.fault, ⟨result.stack, .written result.text⟩)

def perform (w : Writer) : Task → Answer × Writer
  | .encode root =>
    let (fault, after) := w.encode root
    (match fault with
      | none => .done
      | some cause => .failed cause, after)
  | .write piece => match w.buffer.write piece with
    | .ok buffer => (.number piece.length, { w with buffer := buffer })
    | .error cause => (.failed cause, w)
  | .seek position => match w.buffer.seek position with
    | .ok buffer => (.number position, { w with buffer := buffer })
    | .error cause => (.failed cause, w)
  | .read =>
    let (text, buffer) := w.buffer.read
    (.text text, { w with buffer := buffer })
  | .lines => (.lines w.buffer.lines, w)
  | .move m =>
    let (reply, stack) := w.stack.move m
    (.ofReply reply, { w with stack := stack })

end Writer

/-- Buffers that share one stack. -/
structure Desk where
  stack : Stack
  buffers : Array Buffer

namespace Desk

def ofStack (stack : Stack) (count : Nat) : Desk :=
  ⟨stack, Array.replicate count .empty⟩

def writer (d : Desk) (i : Nat) : Writer :=
  ⟨d.stack, d.buffers.getD i .empty⟩

def perform (d : Desk) (i : Nat) (task : Task) : Answer × Desk :=
  let (answer, w) := (d.writer i).perform task
  (answer, ⟨w.stack, d.buffers.setIfInBounds i w.buffer⟩)

end Desk

end XmlLayout.Writing

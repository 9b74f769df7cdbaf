import XmlLayout.Proofs.Indent.Reuse
import XmlLayout.Proofs.Writing.Refused

/-!
# What an encoding leaves that succeeds

An encoding closes every level that it opens. So the stack is back at the document level when a tree
has been written, wherever it stood before; all that is left of the encoding are the indents of the
levels that it came to, and encoding the tree once more changes nothing.

* `levels_preorder`: the levels that a tree takes up are those down to its height.
* `fault_outline_ne_belowDocument`, `fault_outline_eq_none_iff`: how an encoding never fails, and
  when it does not fail at all.
* `Desk.encode_balanced`: what it leaves, for a writer in any state.
-/

namespace XmlLayout.Writing

open Document Indent

/-! ## Levels and heights -/

mutual

theorem levels_preorder (depth : Nat) (node : Node) :
    levels (node.preorder depth) = depth + node.height + 1 := by
  cases node with
  | foreign value => exact Nat.max_zero (depth + 1)
  | element tag children =>
    have hBelow := levels_preorderAll (depth + 1) children
    rw [Node.preorder, levels_cons, Node.height, hBelow]
    omega

/-- Several nodes take up no level, or those from their own down to their greatest height. -/
theorem levels_preorderAll (depth : Nat) (nodes : List Node) :
    max depth (levels (Node.preorderAll depth nodes)) = depth + Node.heightAll nodes := by
  cases nodes with
  | nil => exact Nat.max_zero depth
  | cons node rest =>
    have hFirst := levels_preorder depth node
    have hRest := levels_preorderAll depth rest
    rw [Node.preorderAll, levels_append, Node.heightAll]
    omega

end

/-! ## Faults -/

/-- No encoding closes more levels than it has opened. -/
theorem fault_outline_ne_belowDocument (step : Int) (depth : Nat) (node : Node) :
    (outline step depth node).fault ≠ some .belowDocument := by
  intro hFault
  rw [fault_outline] at hFault
  obtain ⟨⟨level, other⟩, -, hStop⟩ := List.exists_of_findSome?_eq_some hFault
  rcases refused_iff.mpr hStop with hInvalid | ⟨-, -, hCause⟩
  · cases hInvalid
  · split at hCause
    · cases hCause
    · cases hCause

/-- A tree can be written if each element can be, and none is at a level that is too deep. -/
theorem fault_outline_eq_none_iff {step : Int} {root : Node} :
    (outline step 0 root).fault = none ↔ root.Every Writable ∧ Fits step root.height := by
  have hText := encodeToText_eq_ok_iff root step (render step 0 root)
  rw [encodeToText_eq_outline] at hText
  cases hFault : (outline step 0 root).fault with
  | some cause =>
    rw [hFault] at hText
    refine iff_of_false (Option.some_ne_none cause) ?_
    rintro ⟨hWritable, hFits⟩
    cases hText.mpr ⟨hWritable, hFits, rfl⟩
  | none =>
    rw [hFault] at hText
    obtain ⟨hWritable, hRender⟩ := outline_of_fault_eq_none hFault
    obtain ⟨-, hFits, -⟩ := hText.mp (congrArg Except.ok hRender)
    exact iff_of_true rfl ⟨hWritable, hFits⟩

/-! ## Writers -/

variable {size : Nat} {step : Int} {w : Writer} {root : Node} {p : Standing}

theorem Writer.ext {v w : Writer} (hStack : v.stack = w.stack) (hBuffer : v.buffer = w.buffer) :
    v = w := by
  cases v
  cases w
  subst hStack
  subst hBuffer
  rfl

/-- An encoding that succeeds leaves the stack at the document level, having come to the levels of
the tree. -/
theorem refines_encode (h : w.stack.Refines size p) (hStep : w.stack.step = step)
    (hDone : (outline step 0 root).fault = none) :
    (w.encode root).2.buffer = .written (outline step 0 root).text ∧
      Stack.SameSetup (w.encode root).2.stack w.stack ∧
      (w.encode root).2.stack.Refines size ⟨0, max p.top (root.height + 1)⟩ := by
  obtain ⟨hText, -, hSetup, hAfter⟩ := encodeWith_eq_outline h root
  have hDeepest : (outline step 0 root).deepest = root.height + 1 := by
    rw [deepest_outline hDone, levels_preorder]
    omega
  rw [hStep] at hText hAfter
  rw [depth_outline hDone, hDeepest] at hAfter
  exact ⟨congrArg Buffer.written hText, hSetup, hAfter⟩

/-- Encoding a tree once more, with the levels of the tree behind it, changes nothing. -/
theorem Writer.Steady.encode_closes (h : w.Steady size step)
    (hDone : (w.encode root).1 = none) :
    let behind := (w.encode root).2
    behind.stack.depth = 0 ∧ behind.stack.width = 0 ∧
      behind.stack.reached = (if 0 < step then max w.stack.reached root.height else 0) ∧
      behind.buffer.position = behind.buffer.text.length ∧
      behind.encode root = (none, behind) := by
  intro behind
  have hNone : (outline step 0 root).fault = none := (h.fault_encode root).symm.trans hDone
  obtain ⟨hStep, p, hStack⟩ := h
  obtain ⟨hBuffer, hSetup, hAfter⟩ := refines_encode hStack hStep hNone
  have hStepBehind : behind.stack.step = step := hSetup.1.trans hStep
  refine ⟨hAfter.depth_eq, ?_, ?_, ?_, ?_⟩
  · rw [hAfter.width_eq, Int.zero_mul]
  · have hReached := hAfter.reached_eq
    have hBefore := hStack.reached_eq
    rw [hSetup.1, hStep] at hReached
    rw [hStep] at hBefore
    rw [hReached, hBefore]
    split
    · simp only
      omega
    · rfl
  · rw [hBuffer]
    rfl
  · -- The standing behind the second encoding is the one behind the first.
    obtain ⟨hBuffer', hSetup', hAgain⟩ := refines_encode hAfter hStepBehind hNone
    obtain ⟨-, hFault', -⟩ := encodeWith_eq_outline hAfter root
    have hSame : max (max p.top (root.height + 1)) (root.height + 1) =
        max p.top (root.height + 1) := by omega
    simp only [hSame] at hAgain
    have hStackSame := hAgain.eq_of_sameSetup hAfter hSetup'
    have hBufferSame := hBuffer'.trans hBuffer.symm
    rw [hStepBehind, hNone] at hFault'
    exact Prod.ext hFault' (Writer.ext hStackSame hBufferSame)

/-- A writer at a desk, behind any history of its own tasks, those of others and moves on the stack,
never fails in an encoding because more levels were closed than opened, and encodes exactly the
trees that have a text. When it has encoded one the stack stands at the document level with no
width, and the highest level whose indent was ever made is the one from before or the height of the
tree; the buffer is at its end; and encoding the tree once more changes neither buffer nor stack. -/
theorem Desk.encode_balanced (step : Int) (size : Nat) (strict : Bool) (reuse : Reuse)
    (count : Nat) (history : List (Fin count × Task)) (i : Fin count) (root : Node) :
    let w := ((ofStack (.fresh step size strict reuse) count).after history).writer i
    let (fault, behind) := w.encode root
    fault ≠ some .belowDocument ∧
      (fault = none ↔ root.Every Writable ∧ Fits step root.height) ∧
      (fault = none →
        behind.stack.depth = 0 ∧ behind.stack.width = 0 ∧
          behind.stack.reached = (if 0 < step then max w.stack.reached root.height else 0) ∧
          behind.buffer.position = behind.buffer.text.length ∧
          behind.encode root = (none, behind)) := by
  intro w
  have hSteady : w.Steady size step :=
    ((steady_ofStack step size strict reuse count).after history).writer i
  obtain ⟨hStep, p, hStack⟩ := hSteady
  obtain ⟨-, hFault, -⟩ := encodeWith_eq_outline hStack root
  rw [hStep] at hFault
  refine ⟨?_, ?_, Writer.Steady.encode_closes ⟨hStep, p, hStack⟩⟩
  · rw [hFault]
    exact fault_outline_ne_belowDocument step 0 root
  · rw [hFault]
    exact fault_outline_eq_none_iff

end XmlLayout.Writing

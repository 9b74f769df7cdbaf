import XmlLayout.Proofs.Writing.Outline
import XmlLayout.Writing.Writer

/-!
# Writers that share a stack

Writers at one desk do not disturb each other: what a writer is answered and what its buffer holds
is the same as if it alone had done its own tasks, with a fresh stack of its own. An encoding begins
with the stack at the document level, and what else the stack has kept never reaches the text
(`encodeWith_eq_outline`); the other tasks look at the buffer alone.

* `perform_alike`: two writers with the same buffer are answered alike, whatever state their stacks
  are in.
* `answersTo_eq_answers`: the answers to one of the writers at a desk, over any history.
-/

namespace XmlLayout.Writing

open Document Indent

/-- Whether a task is a move on the stack, past the buffer. -/
def Task.isMove : Task → Bool
  | .move _ => true
  | _ => false

namespace Writer

/-- A writer with a stack that some run has led to. -/
def Steady (size : Nat) (step : Int) (w : Writer) : Prop :=
  w.stack.step = step ∧ ∃ p, w.stack.Refines size p

/-- The answers to some tasks, one after the other, and the buffer behind each. -/
def answers (w : Writer) : List Task → List (Answer × Buffer)
  | [] => []
  | task :: rest =>
    ((w.perform task).1, (w.perform task).2.buffer) :: (w.perform task).2.answers rest

/-- The writer behind some tasks. -/
def after (w : Writer) (tasks : List Task) : Writer :=
  tasks.foldl (fun v task => (v.perform task).2) w

variable {size size' : Nat} {step : Int} {v w : Writer}

/-- What an encoding answers and leaves, which is told by the step and the tree. -/
theorem Steady.encode (h : w.Steady size step) (root : Node) :
    (w.perform (.encode root)).1 = (match (outline step 0 root).fault with
        | none => .done
        | some cause => .failed cause) ∧
      (w.perform (.encode root)).2.buffer = .written (outline step 0 root).text ∧
      (w.perform (.encode root)).2.Steady size step := by
  obtain ⟨hStep, p, hStack⟩ := h
  obtain ⟨hText, hFault, hSetup, hAfter⟩ := encodeWith_eq_outline hStack root
  rw [hStep] at hText hFault
  refine ⟨?_, congrArg Buffer.written hText, hSetup.1.trans hStep, _, hAfter⟩
  cases hCause : (outline step 0 root).fault with
  | none => simp only [Writer.perform, Writer.encode, hFault, hCause]
  | some cause => simp only [Writer.perform, Writer.encode, hFault, hCause]

/-- A task leaves the stack in a state that a run can lead to. -/
theorem Steady.perform (h : w.Steady size step) (task : Task) :
    (w.perform task).2.Steady size step := by
  cases task with
  | encode root => exact (h.encode root).2.2
  | write piece =>
    unfold Writer.perform
    dsimp only
    split <;> exact h
  | seek position =>
    unfold Writer.perform
    dsimp only
    split <;> exact h
  | read => exact h
  | lines => exact h
  | move m =>
    obtain ⟨hStep, p, hStack⟩ := h
    exact ⟨(Stack.sameSetup_move w.stack m).1.trans hStep, _, (hStack.move m).2⟩

/-- Two writers with the same step and the same buffer are answered alike, and have the same buffer
again behind it. -/
theorem perform_alike (hv : v.Steady size step) (hw : w.Steady size' step)
    (hBuffer : v.buffer = w.buffer) {task : Task} (hTask : task.isMove = false) :
    (v.perform task).1 = (w.perform task).1 ∧
      (v.perform task).2.buffer = (w.perform task).2.buffer := by
  cases task with
  | encode root =>
    obtain ⟨hFault, hText, -⟩ := hv.encode root
    obtain ⟨hFault', hText', -⟩ := hw.encode root
    exact ⟨hFault.trans hFault'.symm, hText.trans hText'.symm⟩
  | write piece =>
    simp only [perform, hBuffer]
    cases w.buffer.write piece with
    | ok buffer => exact ⟨rfl, rfl⟩
    | error cause => exact ⟨rfl, hBuffer⟩
  | seek position =>
    simp only [perform, hBuffer]
    cases w.buffer.seek position with
    | ok buffer => exact ⟨rfl, rfl⟩
    | error cause => exact ⟨rfl, hBuffer⟩
  | read => simp only [perform, hBuffer, and_self]
  | lines => simp only [perform, hBuffer, and_self]
  | move m => cases hTask

theorem buffer_perform_move (w : Writer) {task : Task} (hTask : task.isMove = true) :
    (w.perform task).2.buffer = w.buffer := by
  cases task with
  | move m => rfl
  | _ => cases hTask

end Writer

namespace Desk

variable {count : Nat}

/-- The desk behind a history, in which each task is for one of the writers. -/
def after (d : Desk) (history : List (Fin count × Task)) : Desk :=
  history.foldl (fun e entry => (e.perform entry.1 entry.2).2) d

/-- The answers to the tasks of one writer in a history, moves on the stack apart, and its buffer
behind each of them. -/
def answersTo (i : Fin count) (d : Desk) : List (Fin count × Task) → List (Answer × Buffer)
  | [] => []
  | (j, task) :: rest =>
    let (answer, e) := d.perform j task
    if j = i ∧ task.isMove = false then (answer, (e.writer i).buffer) :: e.answersTo i rest
    else e.answersTo i rest

/-- The tasks of one writer in a history, moves on the stack apart. -/
def ownTasks (i : Fin count) (history : List (Fin count × Task)) : List Task :=
  (history.filter fun entry => entry.1 = i && !entry.2.isMove).map Prod.snd

theorem ownTasks_cons (i : Fin count) (entry : Fin count × Task)
    (history : List (Fin count × Task)) :
    ownTasks i (entry :: history) =
      if entry.1 = i ∧ entry.2.isMove = false then entry.2 :: ownTasks i history
      else ownTasks i history := by
  unfold ownTasks
  rw [List.filter_cons]
  by_cases hOwn : entry.1 = i ∧ entry.2.isMove = false
  · simp [hOwn]
  · rw [if_neg hOwn, if_neg (by simpa using hOwn)]

/-- A desk with a buffer for each writer, and a stack that some run has led to. -/
structure Steady (size : Nat) (step : Int) (count : Nat) (d : Desk) : Prop where
  buffers_size : d.buffers.size = count
  step_eq : d.stack.step = step
  refines : ∃ p, d.stack.Refines size p

variable {size : Nat} {step : Int} {d : Desk}

theorem Steady.writer (h : d.Steady size step count) (i : Nat) : (d.writer i).Steady size step :=
  ⟨h.step_eq, h.refines⟩

theorem Steady.perform (h : d.Steady size step count) (j : Nat) (task : Task) :
    (d.perform j task).2.Steady size step count := by
  obtain ⟨hStep, hRefines⟩ := (h.writer j).perform task
  refine ⟨?_, hStep, hRefines⟩
  simp only [Desk.perform, Array.size_setIfInBounds]
  exact h.buffers_size

theorem Steady.after (h : d.Steady size step count) (history : List (Fin count × Task)) :
    (d.after history).Steady size step count := by
  induction history generalizing d with
  | nil => exact h
  | cons entry rest ih => exact ih (h.perform entry.1 entry.2)

/-- A task changes the buffer of its own writer, and no other one. -/
theorem Steady.buffer_perform (h : d.Steady size step count) (i j : Fin count) (task : Task) :
    ((d.perform j task).2.writer i).buffer =
      if j = i then ((d.writer i).perform task).2.buffer else (d.writer i).buffer := by
  have hi : (i : Nat) < d.buffers.size := by
    rw [h.buffers_size]
    exact i.isLt
  simp only [Desk.perform, Desk.writer, Array.getD_eq_getD_getElem?, Array.getElem?_setIfInBounds]
  by_cases hij : j = i
  · subst hij
    simp [hi]
  · have hNe : (j : Nat) ≠ i := fun hEq => hij (Fin.ext hEq)
    simp [hij, hNe]

/-- As long as a writer at a desk and one by itself have the same buffer, they are answered alike. -/
theorem Steady.answersTo_eq {size' : Nat} {w : Writer} (hd : d.Steady size step count)
    (hw : w.Steady size' step) {i : Fin count} (hBuffer : (d.writer i).buffer = w.buffer)
    (history : List (Fin count × Task)) :
    d.answersTo i history = w.answers (ownTasks i history) ∧
      ((d.after history).writer i).buffer = (w.after (ownTasks i history)).buffer := by
  induction history generalizing d w with
  | nil => exact ⟨rfl, hBuffer⟩
  | cons entry rest ih =>
    obtain ⟨j, task⟩ := entry
    have hNext := hd.perform j task
    have hChange := hd.buffer_perform i j task
    rw [ownTasks_cons]
    simp only [answersTo, Desk.after, List.foldl_cons]
    by_cases hOwn : j = i ∧ task.isMove = false
    · obtain ⟨rfl, hTask⟩ := hOwn
      obtain ⟨hAnswer, hSame⟩ := Writer.perform_alike (hd.writer j) hw hBuffer hTask
      rw [if_pos rfl, hSame] at hChange
      obtain ⟨hAnswers, hLast⟩ := ih hNext (hw.perform task) hChange
      simp only [hTask, and_self, if_true, hChange, hAnswers, Writer.answers]
      refine ⟨?_, hLast⟩
      rw [← hAnswer]
      rfl
    · have hKept : ((d.perform j task).2.writer i).buffer = w.buffer := by
        rw [hChange, ← hBuffer]
        by_cases hij : j = i
        · rw [if_pos hij]
          refine (d.writer i).buffer_perform_move ?_
          cases hMove : task.isMove with
          | true => rfl
          | false => exact absurd ⟨hij, hMove⟩ hOwn
        · rw [if_neg hij]
      simp only [hOwn, if_false]
      exact ih hNext hw hKept

theorem steady_ofStack (step : Int) (size : Nat) (strict : Bool) (reuse : Reuse) (count : Nat) :
    (ofStack (.fresh step size strict reuse) count).Steady size step count :=
  ⟨Array.size_replicate, rfl, _, .of_fresh step size strict reuse⟩

/-- What one of several writers is answered, and what its buffer holds behind each of its tasks, is
what a writer is answered that has a fresh lenient stack for itself and does the same tasks, in
the same order. What an encoding that succeeds leaves in the buffer is the text of the tree, and an
encoding fails where making that text does. -/
theorem answersTo_eq_answers (step : Int) (size : Nat) (strict : Bool) (reuse : Reuse)
    (count : Nat) (history : List (Fin count × Task)) (i : Fin count) :
    let desk := ofStack (.fresh step size strict reuse) count
    let alone := Writer.ofStack (.ofStep step)
    desk.answersTo i history = alone.answers (ownTasks i history) ∧
      ((desk.after history).writer i).buffer = (alone.after (ownTasks i history)).buffer ∧
      ∀ root, let (answer, behind) := (desk.after history).perform i (.encode root)
        match encodeToText root step with
        | .ok text => answer = .done ∧ (behind.writer i).buffer = .written text
        | .error cause => answer = .failed cause := by
  intro desk alone
  have hDesk : desk.Steady size step count := steady_ofStack step size strict reuse count
  have hAlone : alone.Steady 16 step := ⟨rfl, _, .of_fresh step 16 false .fromSlot⟩
  have hFirst : (desk.writer i).buffer = alone.buffer := by
    simp [desk, alone, Desk.writer, Desk.ofStack, Writer.ofStack]
  obtain ⟨hAnswers, hBuffer⟩ := hDesk.answersTo_eq hAlone hFirst history
  have hAfter := hDesk.after history
  refine ⟨hAnswers, hBuffer, ?_⟩
  intro root
  obtain ⟨hAnswer, hText, -⟩ := (hAfter.writer i).encode root
  have hBehind := hAfter.buffer_perform i i (.encode root)
  rw [if_pos rfl, hText] at hBehind
  have hFirst : ((desk.after history).perform i (.encode root)).1 =
      (((desk.after history).writer i).perform (.encode root)).1 := rfl
  rw [hAnswer] at hFirst
  rw [encodeToText_eq_outline]
  cases hEnd : (outline step 0 root).fault with
  | none =>
    rw [hEnd] at hFirst
    exact ⟨hFirst, hBehind⟩
  | some cause =>
    rw [hEnd] at hFirst
    exact hFirst

end Desk

end XmlLayout.Writing

import XmlLayout.Proofs.Indent.Standing

/-!
# Strict stacks

A strict stack refuses to close more levels than were opened, and is like a lenient one otherwise:
its run is the run of a lenient stack on the moves that it does not refuse for that reason.

* `move_lenient`: a move that is not refused so is the move of a lenient stack.
* `run_strict`: so is a run, once the refused moves are deleted (`heeded`).
-/

namespace XmlLayout.Indent

namespace Standing

variable {step : Int} {p : Standing}

/-- Only closing at the document level is refused for being below it. -/
theorem move_eq_belowDocument_iff (h : 0 ≤ p.depth) (m : Move) :
    (p.move step true m).1 = .refused .belowDocument ↔ m = .pop ∧ p.depth = 0 := by
  cases m with
  | push =>
    simp only [move]
    cases hFault : openingFault? step p.depth with
    | none => simp
    | some cause =>
      have hCause : cause ≠ .belowDocument := by
        rintro rfl
        unfold openingFault? Stack.widthFault? at hFault
        split at hFault
        · cases hFault
        · split at hFault
          · cases hFault
          · split at hFault <;> cases hFault
      simpa using hCause
  | pop =>
    have hBelow : p.depth - 1 < 0 ↔ p.depth = 0 := by omega
    simp only [move, hBelow, and_true, true_and]
    split
    · rename_i hZero
      exact iff_of_true rfl hZero
    · rename_i hSome
      exact iff_of_false (by simp) hSome
  | reset => simp [move]

/-- A strict run does not go below the document level. -/
theorem depth_nonneg_after (h : 0 ≤ p.depth) (moves : List Move) :
    0 ≤ (p.after step true moves).depth := by
  induction moves generalizing p with
  | nil => exact h
  | cons m moves ih =>
    refine ih ?_
    cases m with
    | push =>
      simp only [move]
      split
      · exact h
      · simp only [goTo]
        omega
    | pop =>
      simp only [move]
      split
      · exact h
      · rename_i hAbove
        simp only [and_true] at hAbove
        exact Int.not_lt.mp hAbove
    | reset => exact Int.le_refl 0

end Standing

namespace Stack

/-- The same stack, if it were not strict. -/
def lenient (s : Stack) : Stack :=
  { s with strict := false }

/-- The moves of a run without those that are refused for going below the document level. -/
def heeded (s : Stack) : List Move → List Move
  | [] => []
  | m :: moves =>
    if (s.move m).1 = .refused .belowDocument then (s.move m).2.heeded moves
    else m :: (s.move m).2.heeded moves

variable {s : Stack} {m : Move}

theorem indentAt_lenient (s : Stack) (level : Int) :
    s.lenient.indentAt level = s.indentAt level := by
  cases level with
  | ofNat n => rfl
  | negSucc n => rfl

theorem push_lenient (s : Stack) :
    s.lenient.push = (s.push.1, s.push.2.lenient) := by
  have hIndent := indentAt_lenient s s.depth
  rw [push, push]
  dsimp only [lenient, stride] at hIndent ⊢
  rw [hIndent]
  split <;> rfl

theorem pop_lenient (h : ¬(s.depth - 1 < 0 ∧ s.strict = true)) :
    s.lenient.pop = (s.pop.1, s.pop.2.lenient) := by
  have hIndent := indentAt_lenient
    { s with depth := s.depth - 1, width := s.width - s.stride } (s.depth - 1)
  have hNever : ¬(s.lenient.depth - 1 < 0 ∧ s.lenient.strict = true) := fun hBoth =>
    Bool.false_ne_true hBoth.2
  rw [pop, if_neg hNever, pop, if_neg h]
  dsimp only [lenient, stride] at hIndent ⊢
  rw [hIndent]
  split <;> rfl

theorem answered_lenient (r : Except Error String × Stack) :
    answered (r.1, r.2.lenient) = ((answered r).1, (answered r).2.lenient) := by
  obtain ⟨_ | _, after⟩ := r
  · rfl
  · rfl

theorem refused_of_answered {r : Except Error String × Stack} {cause : Error}
    (h : (answered r).1 = .refused cause) : r.1 = .error cause := by
  obtain ⟨_ | _, after⟩ := r
  · exact congrArg Except.error (Reply.refused.inj h)
  · cases h

/-- An indent that cannot be made is too wide, and nothing else. -/
theorem ne_belowDocument_of_indentAt {level : Int} {cause : Error}
    (h : s.indentAt level = .error cause) : cause ≠ .belowDocument := by
  have hWide : widthFault? s.width ≠ some .belowDocument := by
    unfold widthFault?
    split
    · exact nofun
    · split
      · exact nofun
      · exact nofun
  rintro rfl
  cases level with
  | negSucc n => cases h
  | ofNat n =>
    rw [indentAt] at h
    split at h
    · cases h
    · split at h
      · cases h
      · split at h
        · rename_i hFault
          exact hWide (hFault.trans (congrArg some (Except.error.inj h)))
        · cases h

/-- What is refused for going below the document level changes nothing. -/
theorem move_of_refused (h : (s.move m).1 = .refused .belowDocument) : (s.move m).2 = s := by
  cases m with
  | push =>
    have hPush : s.push.1 = .error .belowDocument := refused_of_answered h
    rw [move, snd_answered]
    unfold push at hPush ⊢
    split
    · rfl
    · rename_i hIndent
      rw [hIndent] at hPush
      cases hPush
  | pop =>
    have hPop : s.pop.1 = .error .belowDocument := refused_of_answered h
    rw [move, snd_answered]
    by_cases hBelow : s.depth - 1 < 0 ∧ s.strict = true
    · rw [pop, if_pos hBelow]
    · rw [pop, if_neg hBelow] at hPop
      dsimp only at hPop
      split at hPop
      · rename_i hIndent
        exact absurd (Except.error.inj hPop) (ne_belowDocument_of_indentAt hIndent)
      · cases hPop
  | reset => cases h

/-- A move that is not refused for going below the document level does not depend on strictness. -/
theorem move_lenient (h : (s.move m).1 ≠ .refused .belowDocument) :
    s.lenient.move m = ((s.move m).1, (s.move m).2.lenient) := by
  cases m with
  | push => rw [move, push_lenient, answered_lenient, move]
  | pop =>
    have hHeeded : ¬(s.depth - 1 < 0 ∧ s.strict = true) := by
      intro hBelow
      refine h ?_
      rw [move, pop, if_pos hBelow]
      rfl
    rw [move, pop_lenient hHeeded, answered_lenient, move]
  | reset => rfl

/-- A run without the moves that are refused for going below the document level is the run of a
lenient stack on the other moves, and ends alike. -/
theorem run_lenient (s : Stack) (moves : List Move) :
    ((s.run moves).filter fun entry => entry.1 ≠ .refused .belowDocument).map
          (fun entry => (entry.1, entry.2.lenient)) = s.lenient.run (s.heeded moves) ∧
      (s.after moves).lenient = s.lenient.after (s.heeded moves) := by
  induction moves generalizing s with
  | nil => exact ⟨rfl, rfl⟩
  | cons m moves ih =>
    obtain ⟨hRun, hAfter⟩ := ih (s.move m).2
    by_cases hRefused : (s.move m).1 = .refused .belowDocument
    · -- The move is deleted, and the run goes on where it was.
      have hSame := move_of_refused hRefused
      rw [hSame] at hRun hAfter
      rw [run, heeded, if_pos hRefused, List.filter_cons_of_neg (by simpa using hRefused), hSame]
      refine ⟨hRun, ?_⟩
      rw [after, List.foldl_cons, hSame]
      exact hAfter
    · have hMove := move_lenient hRefused
      rw [run, heeded, if_neg hRefused, List.filter_cons_of_pos (by simpa using hRefused),
        List.map_cons, hRun, run, hMove]
      refine ⟨rfl, ?_⟩
      rw [after, after, List.foldl_cons, List.foldl_cons, hMove]
      exact hAfter

/-- Behind every run of a strict stack: closing at the document level is refused, no other move is
refused for that reason, and the stack stays as it is; the depth is not negative. The run, and where
it ends, is that of a lenient stack on the moves that were not refused so. -/
theorem run_strict (step : Int) (size : Nat) (reuse : Reuse) (moves : List Move) :
    let start := fresh step size true reuse
    let s := start.after moves
    (∀ m, (s.move m).1 = .refused .belowDocument ↔ m = .pop ∧ s.depth = 0) ∧
      (∀ m, (s.move m).1 = .refused .belowDocument → (s.move m).2 = s) ∧
      0 ≤ s.depth ∧
      ((start.run moves).filter fun entry => entry.1 ≠ .refused .belowDocument).map
          (fun entry => (entry.1, entry.2.lenient)) =
        (fresh step size false reuse).run (start.heeded moves) ∧
      s.lenient = (fresh step size false reuse).after (start.heeded moves) := by
  intro start s
  have h : Refines size s (Standing.start.after step true moves) :=
    Refines.after_fresh step size true reuse moves
  have hDepth : 0 ≤ (Standing.start.after step true moves).depth :=
    Standing.depth_nonneg_after (Int.le_refl 0) moves
  obtain ⟨hStep, hStrict, -⟩ := sameSetup_after start moves
  change s.step = step at hStep
  change s.strict = true at hStrict
  obtain ⟨hRun, hAfter⟩ := run_lenient start moves
  refine ⟨fun m => ?_, fun m => move_of_refused, ?_, hRun, hAfter⟩
  · obtain ⟨hReply, -⟩ := h.move m
    rw [hReply, hStrict, h.depth_eq]
    exact Standing.move_eq_belowDocument_iff hDepth m
  · rw [h.depth_eq]
    exact hDepth

example : (fresh 3 0 true .fromSlot).heeded [.pop, .push, .push, .pop, .pop, .pop, .push] =
    [.push, .push, .pop, .pop, .push] := by
  decide +kernel

end Stack

end XmlLayout.Indent

import XmlLayout.Proofs.Indent.Standing

/-!
# The replies of a run in closed form

What a stack replies to a move depends on its step, its depth and the greatest depth of the run so
far, and on nothing else of what came before.

* `move_after_fresh`: the reply to each move of each run of a lenient stack, the depth behind it,
  and the width.
* `not_forall_push_answered`: it is not so that no move is ever refused. An indent of more spaces
  than there can be cannot be made.
-/

namespace XmlLayout.Indent

namespace Standing

/-- A move remembers the greatest depth. -/
theorem top_move (step : Int) (strict : Bool) {p : Standing} (h : p.depth ≤ p.top) (m : Move) :
    (p.move step strict m).2.top = max p.top (p.move step strict m).2.depth.toNat := by
  have hSame : p.top = max p.top p.depth.toNat := by omega
  cases m with
  | push =>
    simp only [move]
    split
    · exact hSame
    · rfl
  | pop =>
    simp only [move]
    split
    · exact hSame
    · rfl
  | reset => rfl

end Standing

namespace Stack

/-- The greatest depth of a run, where it starts and behind each of its moves. -/
def greatestDepth (s : Stack) : List Move → Int
  | [] => s.depth
  | m :: moves => max s.depth ((s.move m).2.greatestDepth moves)

theorem depth_le_greatestDepth (s : Stack) (moves : List Move) :
    s.depth ≤ s.greatestDepth moves := by
  cases moves with
  | nil => exact Int.le_refl _
  | cons m moves => exact Int.le_max_left _ _

variable {size : Nat} {s : Stack} {p : Standing}

/-- The standing behind a run knows the greatest depth of the run. -/
theorem Refines.top_after (h : Refines size s p) (moves : List Move) :
    ((p.after s.step s.strict moves).top : Int) = max (p.top : Int) (s.greatestDepth moves) := by
  induction moves generalizing s p with
  | nil =>
    have hDepth := h.depth_le
    rw [← h.depth_eq] at hDepth
    exact (Int.max_eq_left hDepth).symm
  | cons m moves ih =>
    obtain ⟨-, hNext⟩ := h.move m
    obtain ⟨hStep, hStrict, -⟩ := sameSetup_move s m
    have hTop := ih hNext
    rw [hStep, hStrict, Standing.top_move s.step s.strict h.depth_le m] at hTop
    have hFirst := h.depth_le
    have hLess := depth_le_greatestDepth (s.move m).2 moves
    rw [← h.depth_eq] at hFirst
    rw [hNext.depth_eq] at hLess
    simp only [greatestDepth]
    simp only [Standing.after, List.foldl_cons] at hTop ⊢
    omega

theorem Refines.move_push (h : Refines size s p) :
    if 0 < s.step ∧ 0 < s.depth ∧ memoryLimit < s.depth * s.step then
      s.move .push = (.refused
        (if largestLength < s.depth * s.step then .widthTooLarge else .outOfMemory), s)
    else
      (s.move .push).1 =
          .text (if s.step ≤ 0 ∨ s.depth ≤ 0 then "" else lineIndent (s.depth * s.step).toNat) ∧
        (s.move .push).2.depth = s.depth + 1 := by
  have hDepth := h.depth_eq
  split
  · rename_i hWide
    obtain ⟨hPos, hDeep, hWide⟩ := hWide
    have hFault : openingFault? s.step p.depth = some
        (if largestLength < s.depth * s.step then .widthTooLarge else .outOfMemory) := by
      rw [openingFault?_eq hPos (by omega), ← hDepth, widthFault?, if_pos hWide]
      split <;> rfl
    rw [Stack.move, h.push_of_fault hFault]
    rfl
  · rename_i hFits
    have hFault : openingFault? s.step p.depth = none := by
      unfold openingFault?
      split
      · rfl
      · rw [widthFault?_eq_none_iff, ← hDepth]
        exact Int.not_lt.1 fun hWide => hFits ⟨by omega, by omega, hWide⟩
    obtain ⟨slots, hPush, -⟩ := h.push hFault
    rw [Stack.move, hPush]
    simp only [answered, openingAt, hDepth, and_self]

theorem Refines.move_pop (h : Refines size s p) (hStrict : s.strict = false) :
    (s.move .pop).1 =
        .text (if s.step ≤ 0 ∨ s.depth - 1 < 0 then ""
          else if 1 ≤ s.depth - 1 then lineIndent ((s.depth - 1) * s.step).toNat
          else if 2 ≤ p.top then "\n" else "") ∧
      (s.move .pop).2.depth = s.depth - 1 := by
  have hLenient : ¬(p.depth - 1 < 0 ∧ s.strict = true) := by simp [hStrict]
  obtain ⟨slots, hPop, -⟩ := h.pop hLenient
  rw [Stack.move, hPop]
  simp only [answered, closingAt, h.depth_eq, and_self]

/-- In a run of a fresh stack the standing has the greatest depth so far. -/
theorem top_after_fresh (step : Int) (size : Nat) {strict : Bool} (reuse : Reuse)
    (moves : List Move) :
    ((Standing.start.after step strict moves).top : Int) =
      (fresh step size strict reuse).greatestDepth moves := by
  have hMax := (Refines.of_fresh step size strict reuse).top_after moves
  have hLess := depth_le_greatestDepth (fresh step size strict reuse) moves
  have hFrom : (0 : Int) ≤ (fresh step size strict reuse).greatestDepth moves := hLess
  have hZero : (Standing.start.top : Int) = 0 := rfl
  rw [hZero, Int.max_eq_right hFrom] at hMax
  exact hMax

/-- The reply to each move of each run of a lenient stack, by the depth in front of it and the
greatest depth so far. Going deeper is refused, and changes nothing, if the indent would be wider
than there can be; no other move is refused. -/
theorem move_after_fresh (step : Int) (size : Nat) (reuse : Reuse) (moves : List Move) :
    let s := (fresh step size false reuse).after moves
    let top := (fresh step size false reuse).greatestDepth moves
    (if 0 < step ∧ 0 < s.depth ∧ memoryLimit < s.depth * step then
        s.move .push = (.refused
          (if largestLength < s.depth * step then .widthTooLarge else .outOfMemory), s)
      else
        (s.move .push).1 =
            .text (if step ≤ 0 ∨ s.depth ≤ 0 then "" else lineIndent (s.depth * step).toNat) ∧
          (s.move .push).2.depth = s.depth + 1) ∧
      ((s.move .pop).1 =
          .text (if step ≤ 0 ∨ s.depth - 1 < 0 then ""
            else if 1 ≤ s.depth - 1 then lineIndent ((s.depth - 1) * step).toNat
            else if 2 ≤ top then "\n" else "") ∧
        (s.move .pop).2.depth = s.depth - 1) ∧
      ((s.move .reset).1 = .done ∧ (s.move .reset).2.depth = 0) ∧
      s.width = if 0 < step then s.depth * step else 0 := by
  intro s top
  have h : Refines size s (Standing.start.after step false moves) :=
    Refines.after_fresh step size false reuse moves
  have hTop : ((Standing.start.after step false moves).top : Int) = top :=
    top_after_fresh step size reuse moves
  obtain ⟨hStep, hStrict, -⟩ := sameSetup_after (fresh step size false reuse) moves
  change s.step = step at hStep
  change s.strict = false at hStrict
  generalize Standing.start.after step false moves = p at h hTop
  refine ⟨?_, ?_, ⟨rfl, rfl⟩, ?_⟩
  · rw [← hStep]
    exact h.move_push
  · have hGate : 2 ≤ p.top ↔ 2 ≤ top := by omega
    have hPop := h.move_pop hStrict
    simp only [hGate, hStep] at hPop
    exact hPop
  · rw [h.width_eq, stride, hStep, h.depth_eq]
    split
    · rfl
    · exact Int.mul_zero _

/-- Going deeper is not always answered by the indent of the depth. -/
theorem not_forall_push_answered :
    ¬∀ (step : Int) (size : Nat) (moves : List Move),
      let s := (fresh step size false .fromSlot).after moves
      (s.move .push).1 =
        .text (if step ≤ 0 ∨ s.depth ≤ 0 then "" else lineIndent (s.depth * step).toNat) := by
  intro h
  have hPush := h (2 ^ 63) 16 [.push]
  have hWide : (((fresh (2 ^ 63) 16 false .fromSlot).after [.push]).move .push).1 =
      .refused .widthTooLarge := by decide +kernel
  dsimp only at hPush
  rw [hWide] at hPush
  cases hPush

end Stack

end XmlLayout.Indent

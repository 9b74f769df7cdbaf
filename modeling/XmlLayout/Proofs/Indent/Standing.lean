import XmlLayout.Indent.Moves

/-!
# Where a run stands

The replies of a stack of levels can be told from the depth and the greatest depth so far, without
any slots. `Standing.move` is that closed form, and `Stack.Refines` ties a stack to a standing: the
width is the depth times the step, the slots below the greatest depth hold the indents of their
levels, and the other slots are empty.

* `Refines.of_fresh` and `Refines.move`: a fresh stack refines the standing at the start, and each
  move gives the reply of the standing and keeps the two tied.
* `Refines.after`: so does a whole run.
-/

namespace XmlLayout.Indent

/-- A line feed and `n` spaces. -/
def lineIndent (n : Nat) : String :=
  String.ofList ('\n' :: List.replicate n ' ')

theorem indentText_eq (width : Int) : indentText width = lineIndent width.toNat := by
  rw [← String.toList_inj, toList_indentText, lineIndent, String.toList_ofList]

/-! ## The closed form -/

/-- Why there can be no indent in front of an opening tag at a depth, if there can be none. -/
def openingFault? (step depth : Int) : Option Error :=
  if step ≤ 0 ∨ depth ≤ 0 then none else Stack.widthFault? (depth * step)

/-- The indent in front of an opening tag at a depth. -/
def openingAt (step depth : Int) : String :=
  if step ≤ 0 ∨ depth ≤ 0 then "" else lineIndent (depth * step).toNat

/-- The indent in front of a closing tag at a depth, where `top` is the greatest depth so far. -/
def closingAt (step depth : Int) (top : Nat) : String :=
  if step ≤ 0 ∨ depth < 0 then ""
  else if 1 ≤ depth then lineIndent (depth * step).toNat
  else if 2 ≤ top then "\n"
  else ""

/-- Where a run stands. -/
structure Standing where
  depth : Int
  /-- The greatest depth so far. -/
  top : Nat
  deriving DecidableEq

namespace Standing

def start : Standing :=
  ⟨0, 0⟩

/-- Goes to a depth. -/
def goTo (p : Standing) (depth : Int) : Standing :=
  ⟨depth, max p.top depth.toNat⟩

/-- The reply to a move, and where the run stands then. -/
def move (step : Int) (strict : Bool) (p : Standing) : Move → Reply × Standing
  | .push => match openingFault? step p.depth with
    | some cause => (.refused cause, p)
    | none => (.text (openingAt step p.depth), p.goTo (p.depth + 1))
  | .pop =>
    if p.depth - 1 < 0 ∧ strict = true then (.refused .belowDocument, p)
    else (.text (closingAt step (p.depth - 1) p.top), p.goTo (p.depth - 1))
  | .reset => (.done, p.goTo 0)

/-- Where a run stands after some moves. -/
def after (step : Int) (strict : Bool) (p : Standing) (moves : List Move) : Standing :=
  moves.foldl (fun q m => (q.move step strict m).2) p

end Standing

/-- The number of slots of a row that began with `size`, once the slots below `top` were filled one
after the other. -/
def capacityAt (size : Nat) : Nat → Nat
  | 0 => size
  | top + 1 =>
    if top < capacityAt size top then capacityAt size top else Slots.roomFor top

theorem le_capacityAt (size top : Nat) : top ≤ capacityAt size top := by
  induction top with
  | zero => exact Nat.zero_le _
  | succ top ih =>
    rw [capacityAt]
    split
    · assumption
    · rw [Slots.roomFor]
      omega

/-! ## Stacks and standings -/

namespace Stack

/-- A stack that began with `size` slots stands at `p`. -/
structure Refines (size : Nat) (s : Stack) (p : Standing) : Prop where
  depth_eq : s.depth = p.depth
  width_eq : s.width = p.depth * s.stride
  depth_le : p.depth ≤ p.top
  get?_eq : ∀ i : Nat, s.slots.get? i =
    if 0 < s.step ∧ i < p.top then some (lineIndent (i * s.step).toNat) else none
  reached_eq : s.reached = if 0 < s.step then p.top - 1 else 0
  capacity_eq : s.slots.capacity = if 0 < s.step then capacityAt size p.top else 0
  /-- Only indents that are not too wide were ever made. -/
  fits : 0 < s.step → ∀ i < p.top, (i : Int) * s.step ≤ memoryLimit

theorem Refines.of_fresh (step : Int) (size : Nat) (strict : Bool) (reuse : Reuse) :
    Refines size (fresh step size strict reuse) .start where
  depth_eq := rfl
  width_eq := by simp [fresh, Standing.start]
  depth_le := by simp [Standing.start]
  get?_eq i := by simp [fresh, Standing.start]
  reached_eq := by simp [fresh, reached, Slots.replicate, Standing.start]
  capacity_eq := by
    simp only [fresh, Slots.replicate, Slots.capacity, Array.size_replicate, Standing.start,
      capacityAt]
  fits := by
    intro _ i hi
    exact absurd hi (Nat.not_lt_zero i)

variable {size : Nat} {s : Stack} {p : Standing}

/-- At another depth the slots are as they should be, unless a level was passed over. -/
theorem Refines.goTo (h : Refines size s p) (depth width : Int)
    (hTop : 0 < s.step → depth ≤ p.top) (hWidth : width = depth * s.stride) :
    Refines size { s with depth := depth, width := width } (p.goTo depth) := by
  have hMax (hStep : 0 < s.step) : (p.goTo depth).top = p.top := by
    have := hTop hStep
    simp only [Standing.goTo]
    omega
  exact {
    depth_eq := rfl
    width_eq := hWidth
    depth_le := by
      simp only [Standing.goTo]
      omega
    get?_eq := by
      intro i
      by_cases hStep : 0 < s.step
      · rw [hMax hStep]
        exact h.get?_eq i
      · simpa [hStep] using h.get?_eq i
    reached_eq := by
      by_cases hStep : 0 < s.step
      · rw [hMax hStep]
        exact h.reached_eq
      · have hReached := h.reached_eq
        rw [if_neg hStep] at hReached ⊢
        exact hReached
    capacity_eq := by
      by_cases hStep : 0 < s.step
      · rw [hMax hStep]
        exact h.capacity_eq
      · simpa [hStep] using h.capacity_eq
    fits := by
      intro hStep
      rw [hMax hStep]
      exact h.fits hStep }

/-! ## Visiting a level -/

theorem indentAt_of_neg (s : Stack) {level : Int} (h : level < 0) :
    s.indentAt level = .ok ("", s.slots) := by
  cases level with
  | ofNat n => exact absurd h (by simp)
  | negSucc n => rfl

theorem indentAt_of_step (s : Stack) (level : Int) (h : s.step ≤ 0) :
    s.indentAt level = .ok ("", s.slots) := by
  cases level with
  | ofNat n => simp only [indentAt, h, if_true]
  | negSucc n => rfl

/-- The gate at the document level opens with the second level. -/
theorem Refines.gated_eq (h : Refines size s p) (hStep : 0 < s.step) (text : String) :
    gated s.slots text = if 2 ≤ p.top then text else "" := by
  have hReached := h.reached_eq
  rw [reached, if_pos hStep] at hReached
  rw [gated, hReached]
  have hLess : 0 < p.top - 1 ↔ 2 ≤ p.top := by omega
  simp only [hLess]

/-- A slot that is given again holds the indent of its level. -/
theorem Refines.of_offered? (h : Refines size s p) {n : Nat} {text : String}
    (hOffer : s.offered? n = some text) :
    n < p.top ∧ text = lineIndent (n * s.step).toNat := by
  unfold offered? at hOffer
  split at hOffer
  · rw [h.get?_eq] at hOffer
    split at hOffer
    · rename_i hTop
      exact ⟨hTop.2, (Option.some.inj hOffer).symm⟩
    · cases hOffer
  · cases hOffer

/-- Keeping the indent of a level, for the first time or again. -/
theorem Refines.put (h : Refines size s p) (hStep : 0 < s.step) {n : Nat} (hn : n ≤ p.top)
    (hFits : n * s.step ≤ memoryLimit) :
    Refines size { s with slots := s.slots.put n (lineIndent (n * s.step).toNat) }
      ⟨p.depth, max p.top (n + 1)⟩ where
  depth_eq := h.depth_eq
  width_eq := h.width_eq
  depth_le := by
    have hDepth := h.depth_le
    simp only
    omega
  get?_eq i := by
    have hOld := h.get?_eq i
    simp only [Slots.get?_put, hOld, hStep, true_and]
    by_cases hi : i = n
    · have hLess : i < max p.top (n + 1) := by omega
      rw [if_pos hi, if_pos hLess, hi]
    · have hLess : i < max p.top (n + 1) ↔ i < p.top := by omega
      simp only [hi, if_false, hLess]
  reached_eq := by
    have hReached := h.reached_eq
    simp only [reached, if_pos hStep, Slots.highest_put] at hReached ⊢
    omega
  capacity_eq := by
    have hOld := h.capacity_eq
    rw [if_pos hStep] at hOld
    simp only [Slots.capacity_put, hOld, if_pos hStep]
    rcases Nat.lt_or_eq_of_le hn with hLess | rfl
    · have hRoom := Nat.lt_of_lt_of_le hLess (le_capacityAt size p.top)
      rw [if_pos hRoom, Nat.max_eq_left hLess]
    · rw [Nat.max_eq_right (Nat.le_succ _), capacityAt, Slots.roomFor]
  fits := by
    intro _ i hi
    by_cases hLess : i < p.top
    · exact h.fits hStep i hLess
    · have hEq : i = n := by
        simp only at hi
        omega
      rw [hEq]
      exact hFits

/-- Visiting a level whose indent is not too wide. Whether the indent is given again or made anew
makes no difference. -/
theorem Refines.indentAt (h : Refines size s p) (hStep : 0 < s.step) {n : Nat}
    (hDepth : p.depth = n) (hFits : n * s.step ≤ memoryLimit) :
    ∃ slots, s.indentAt n = .ok (if 2 ≤ max p.top (n + 1) then
        lineIndent (n * s.step).toNat else "", slots) ∧
      Refines size { s with slots := slots } ⟨p.depth, max p.top (n + 1)⟩ := by
  have hNot : ¬s.step ≤ 0 := by omega
  have hTop : n ≤ p.top := by
    have := h.depth_le
    omega
  cases hOffer : s.offered? n with
  | some text =>
    obtain ⟨hLess, rfl⟩ := h.of_offered? hOffer
    have hMax : max p.top (n + 1) = p.top := Nat.max_eq_left hLess
    refine ⟨s.slots, ?_, by rw [hMax]; exact h⟩
    simp only [Stack.indentAt, hNot, if_false, hOffer, hMax, h.gated_eq hStep]
  | none =>
    have hWidth : s.width = n * s.step := by
      rw [h.width_eq, hDepth, stride, if_pos hStep]
    have hNone : widthFault? (n * s.step) = none := widthFault?_eq_none_iff.2 hFits
    have hPut := h.put hStep hTop hFits
    refine ⟨_, ?_, hPut⟩
    simp only [Stack.indentAt, hNot, if_false, hOffer, hWidth, hNone, indentText_eq]
    rw [hPut.gated_eq hStep]

/-- An indent that is too wide was never made before, and cannot be made. -/
theorem Refines.indentAt_of_fault (h : Refines size s p) (hStep : 0 < s.step) {n : Nat}
    (hDepth : p.depth = n) {cause : Error} (hFault : widthFault? (n * s.step) = some cause) :
    s.indentAt n = .error cause := by
  have hNot : ¬s.step ≤ 0 := by omega
  have hWidth : s.width = n * s.step := by
    rw [h.width_eq, hDepth, stride, if_pos hStep]
  cases hOffer : s.offered? n with
  | some text =>
    obtain ⟨hLess, -⟩ := h.of_offered? hOffer
    have hNone := widthFault?_eq_none_iff.2 (h.fits hStep n hLess)
    rw [hNone] at hFault
    cases hFault
  | none => simp only [Stack.indentAt, hNot, if_false, hOffer, hWidth, hFault]

/-! ## Moves -/

theorem openingFault?_eq {step depth : Int} (hStep : 0 < step) (hDepth : 0 < depth) :
    openingFault? step depth = widthFault? (depth * step) := by
  rw [openingFault?, if_neg (by omega)]

/-- Going a level deeper, where the indent is not too wide. -/
theorem Refines.push (h : Refines size s p) (hFault : openingFault? s.step p.depth = none) :
    ∃ slots, s.push = (.ok (openingAt s.step p.depth),
        { s with depth := p.depth + 1, width := (p.depth + 1) * s.stride, slots := slots }) ∧
      Refines size { s with depth := p.depth + 1, width := (p.depth + 1) * s.stride, slots := slots }
        (p.goTo (p.depth + 1)) := by
  have hWidth : s.width + s.stride = (p.depth + 1) * s.stride := by
    rw [h.width_eq, Int.add_mul, Int.one_mul]
  have hDepth := h.depth_eq
  by_cases hIdle : s.step ≤ 0 ∨ p.depth < 0
  · have hIndent : s.indentAt p.depth = .ok ("", s.slots) := by
      rcases hIdle with hStep | hNeg
      · exact indentAt_of_step s p.depth hStep
      · exact indentAt_of_neg s hNeg
    refine ⟨s.slots, ?_, h.goTo _ _ (by omega) rfl⟩
    have hEmpty : s.step ≤ 0 ∨ p.depth ≤ 0 := by omega
    simp only [Stack.push, hIndent, hWidth, hDepth, openingAt, if_pos hEmpty, ite_self]
  · obtain ⟨n, hn⟩ := Int.eq_ofNat_of_zero_le (by omega : 0 ≤ p.depth)
    have hStep : 0 < s.step := by omega
    have hFits : n * s.step ≤ memoryLimit := by
      by_cases hZero : n = 0
      · rw [hZero]
        simp [memoryLimit]
      · rw [openingFault?_eq hStep (by omega), hn] at hFault
        exact widthFault?_eq_none_iff.1 hFault
    obtain ⟨slots, hIndent, hAfter⟩ := h.indentAt hStep hn hFits
    refine ⟨slots, ?_, ?_⟩
    · by_cases hZero : n = 0
      · have hEmpty : s.step ≤ 0 ∨ (n : Int) ≤ 0 := by omega
        have hNone : (n : Int) = 0 := by omega
        simp only [Stack.push, hDepth, hn, hIndent, hWidth, openingAt, if_pos hEmpty, if_pos hNone]
      · have hNot : ¬(s.step ≤ 0 ∨ (n : Int) ≤ 0) := by omega
        have hGate : 2 ≤ max p.top (n + 1) := by omega
        have hSome : ¬(n : Int) = 0 := by omega
        simp only [Stack.push, hDepth, hn, hIndent, hWidth, openingAt, if_neg hNot, if_pos hGate,
          if_neg hSome]
    · have hGo := hAfter.goTo (p.depth + 1) ((p.depth + 1) * s.stride) (by simp only; omega) rfl
      have hTop : max (max p.top (n + 1)) (p.depth + 1).toNat = max p.top (p.depth + 1).toNat := by
        omega
      simpa only [Standing.goTo, hTop] using hGo

/-- An indent that is too wide keeps the stack from going deeper. -/
theorem Refines.push_of_fault (h : Refines size s p) {cause : Error}
    (hFault : openingFault? s.step p.depth = some cause) : s.push = (.error cause, s) := by
  unfold openingFault? at hFault
  split at hFault
  · cases hFault
  · obtain ⟨n, hn⟩ := Int.eq_ofNat_of_zero_le (by omega : 0 ≤ p.depth)
    rw [hn] at hFault
    have hIndent := h.indentAt_of_fault (by omega) hn hFault
    simp only [Stack.push, h.depth_eq, hn, hIndent]

/-- Coming back a level, where that is not refused. The indent there was made on the way. -/
theorem Refines.pop (h : Refines size s p) (hStrict : ¬(p.depth - 1 < 0 ∧ s.strict = true)) :
    ∃ slots, s.pop = (.ok (closingAt s.step (p.depth - 1) p.top),
        { s with depth := p.depth - 1, width := (p.depth - 1) * s.stride, slots := slots }) ∧
      Refines size { s with depth := p.depth - 1, width := (p.depth - 1) * s.stride, slots := slots }
        (p.goTo (p.depth - 1)) := by
  have hWidth : s.width - s.stride = (p.depth - 1) * s.stride := by
    rw [h.width_eq, Int.sub_mul, Int.one_mul]
  have hDepth := h.depth_eq
  have hTop := h.depth_le
  have hUp : Refines size { s with depth := p.depth - 1, width := (p.depth - 1) * s.stride }
      (p.goTo (p.depth - 1)) := h.goTo _ _ (by omega) rfl
  by_cases hIdle : s.step ≤ 0 ∨ p.depth - 1 < 0
  · refine ⟨s.slots, ?_, hUp⟩
    have hIndent : Stack.indentAt { s with depth := p.depth - 1, width := (p.depth - 1) * s.stride }
        (p.depth - 1) = .ok ("", s.slots) := by
      rcases hIdle with hStep | hNeg
      · exact indentAt_of_step _ _ hStep
      · exact indentAt_of_neg _ hNeg
    simp only [Stack.pop, hDepth, if_neg hStrict, hWidth, hIndent, closingAt, if_pos hIdle]
  · obtain ⟨n, hn⟩ := Int.eq_ofNat_of_zero_le (by omega : 0 ≤ p.depth - 1)
    have hStep : 0 < s.step := by omega
    have hMax : (p.goTo (p.depth - 1)).top = p.top := by
      simp only [Standing.goTo]
      omega
    obtain ⟨slots, hIndent, hAfter⟩ :=
      hUp.indentAt hStep hn (h.fits hStep n (by omega))
    have hSame : max (p.goTo (p.depth - 1)).top (n + 1) = p.top := by omega
    rw [hSame] at hIndent hAfter
    refine ⟨slots, ?_, ?_⟩
    · have hNot : ¬(s.step ≤ 0 ∨ (n : Int) < 0) := by omega
      rw [hn] at hIndent hStrict hWidth ⊢
      simp only [Stack.pop, hDepth, hn, if_neg hStrict, hWidth, hIndent, closingAt, if_neg hNot]
      by_cases hZero : n = 0
      · subst hZero
        simp [lineIndent]
      · have hGate : 2 ≤ p.top := by omega
        have hSome : (1 : Int) ≤ n := by omega
        rw [if_pos hGate, if_pos hSome]
    · have hGoal : p.goTo (p.depth - 1) = ⟨p.depth - 1, p.top⟩ := by
        rw [← hMax]
        rfl
      rw [hGoal]
      exact hAfter

theorem Refines.reset (h : Refines size s p) : Refines size s.reset (p.goTo 0) :=
  h.goTo 0 0 (by omega) (by simp)

/-- A move gives the reply of the standing, and keeps the two tied. -/
theorem Refines.move (h : Refines size s p) (m : Move) :
    (s.move m).1 = (p.move s.step s.strict m).1 ∧
      Refines size (s.move m).2 (p.move s.step s.strict m).2 := by
  cases m with
  | push =>
    cases hFault : openingFault? s.step p.depth with
    | some cause =>
      have hPush := h.push_of_fault hFault
      simp only [Stack.move, Standing.move, hPush, hFault, answered]
      exact ⟨trivial, h⟩
    | none =>
      obtain ⟨slots, hPush, hAfter⟩ := h.push hFault
      simp only [Stack.move, Standing.move, hPush, hFault, answered]
      exact ⟨trivial, hAfter⟩
  | pop =>
    by_cases hStrict : p.depth - 1 < 0 ∧ s.strict = true
    · have hPop : s.pop = (.error .belowDocument, s) := by
        rw [Stack.pop, h.depth_eq, if_pos hStrict]
      simp only [Stack.move, Standing.move, hPop, if_pos hStrict, answered]
      exact ⟨trivial, h⟩
    · obtain ⟨slots, hPop, hAfter⟩ := h.pop hStrict
      simp only [Stack.move, Standing.move, hPop, if_neg hStrict, answered]
      exact ⟨trivial, hAfter⟩
  | reset => exact ⟨rfl, h.reset⟩

/-! ## Runs -/

/-- Two stacks that are set up alike, apart from their sizes. -/
def SameSetup (s t : Stack) : Prop :=
  s.step = t.step ∧ s.strict = t.strict ∧ s.reuse = t.reuse

theorem SameSetup.trans {s t u : Stack} (h : SameSetup s t) (h' : SameSetup t u) :
    SameSetup s u :=
  ⟨h.1.trans h'.1, h.2.1.trans h'.2.1, h.2.2.trans h'.2.2⟩

theorem sameSetup_push (s : Stack) : SameSetup s.push.2 s := by
  unfold Stack.push
  split
  · exact ⟨rfl, rfl, rfl⟩
  · exact ⟨rfl, rfl, rfl⟩

theorem sameSetup_pop (s : Stack) : SameSetup s.pop.2 s := by
  unfold Stack.pop
  split
  · exact ⟨rfl, rfl, rfl⟩
  · dsimp only
    split
    · exact ⟨rfl, rfl, rfl⟩
    · exact ⟨rfl, rfl, rfl⟩

theorem snd_answered (r : Except Error String × Stack) : (answered r).2 = r.2 := by
  obtain ⟨_ | _, after⟩ := r
  · rfl
  · rfl

/-- A move does not change how a stack is set up. -/
theorem sameSetup_move (s : Stack) (m : Move) : SameSetup (s.move m).2 s := by
  cases m with
  | push =>
    rw [Stack.move, snd_answered]
    exact sameSetup_push s
  | pop =>
    rw [Stack.move, snd_answered]
    exact sameSetup_pop s
  | reset => exact ⟨rfl, rfl, rfl⟩

theorem sameSetup_after (s : Stack) (moves : List Move) : SameSetup (s.after moves) s := by
  induction moves generalizing s with
  | nil => exact ⟨rfl, rfl, rfl⟩
  | cons m moves ih => exact (ih (s.move m).2).trans (sameSetup_move s m)

/-- A run keeps a stack tied to its standing. -/
theorem Refines.after (h : Refines size s p) (moves : List Move) :
    Refines size (s.after moves) (p.after s.step s.strict moves) := by
  induction moves generalizing s p with
  | nil => exact h
  | cons m moves ih =>
    have hNext := ih (h.move m).2
    obtain ⟨hStep, hStrict, -⟩ := sameSetup_move s m
    rw [hStep, hStrict] at hNext
    exact hNext

/-- Where a run on a fresh stack stands. -/
theorem Refines.after_fresh (step : Int) (size : Nat) (strict : Bool) (reuse : Reuse)
    (moves : List Move) :
    Refines size ((fresh step size strict reuse).after moves)
      (Standing.start.after step strict moves) :=
  (Refines.of_fresh step size strict reuse).after moves

end Stack

end XmlLayout.Indent

import Mathlib.Order.Bounds.Defs
import XmlLayout.Proofs.Indent.FiniteMap
import XmlLayout.Proofs.Indent.Store

/-!
# How the row of slots grows

Filling a slot past the end makes the row twice as long as the number of that slot. A stack fills
its slots one after the other, whatever resets and refused moves there are on the way, so the slot
past the end is always the one right behind it. That makes the row double, and its length can be
told from the greatest depth of the run alone.

* `capacityAt_of_le`, `isDoubled_capacityAt`: the length in closed form.
* `Refines.le_top_of_mem_visited`: no run asks for a level beyond its greatest depth.
* `set_after_fresh`: there is room for what a run makes, unless it comes deeper than can ever be.
* `capacity_after_fresh`: the length behind every run.
* `not_forall_lt_capacity`: it does not exceed every level that was asked for. An indent that is too
  wide to be made finds no room.
-/

namespace XmlLayout.Indent

/-! ## Doubling -/

/-- A length that doubling leads to from `size` slots, or from a single one if there are none. -/
def IsDoubled (size capacity : Nat) : Prop :=
  ∃ k, capacity = max size 1 * Nat.pow 2 k

variable {size capacity other top : Nat}

theorem two_mul_doubled (start k : Nat) :
    2 * (start * Nat.pow 2 k) = start * Nat.pow 2 (k + 1) := by
  have hPow : Nat.pow 2 (k + 1) = Nat.pow 2 k * 2 := rfl
  rw [hPow, Nat.mul_comm 2, Nat.mul_assoc]

theorem IsDoubled.double (h : IsDoubled size capacity) : IsDoubled size (2 * capacity) := by
  obtain ⟨k, rfl⟩ := h
  exact ⟨k + 1, two_mul_doubled _ k⟩

/-- Of two such lengths the longer one is at least twice as long. -/
theorem IsDoubled.two_mul_le (h : IsDoubled size capacity) (hOther : IsDoubled size other)
    (hLess : capacity < other) : 2 * capacity ≤ other := by
  obtain ⟨k, rfl⟩ := h
  obtain ⟨j, rfl⟩ := hOther
  have hPow : 2 ^ k < 2 ^ j := Nat.lt_of_mul_lt_mul_left hLess
  have hNext : k + 1 ≤ j := (Nat.pow_lt_pow_iff_right Nat.one_lt_two).mp hPow
  calc 2 * (max size 1 * Nat.pow 2 k) = max size 1 * Nat.pow 2 (k + 1) := two_mul_doubled _ k
    _ ≤ max size 1 * Nat.pow 2 j :=
        Nat.mul_le_mul_left _ (Nat.pow_le_pow_right Nat.two_pos hNext)

/-- Such a length is the least one to reach a number if it is less than twice the number. -/
theorem IsDoubled.isLeast (h : IsDoubled size capacity) (hTop : top ≤ capacity)
    (hLess : capacity < 2 * top) : IsLeast {c | IsDoubled size c ∧ top ≤ c} capacity := by
  refine ⟨⟨h, hTop⟩, ?_⟩
  rintro c ⟨hDoubled, hReach⟩
  apply Nat.not_lt.mp
  intro hShort
  have hTwice := hDoubled.two_mul_le h hShort
  omega

/-! ## The length in closed form -/

theorem capacityAt_of_le (h : top ≤ size) : capacityAt size top = size := by
  induction top with
  | zero => rfl
  | succ top ih => rw [capacityAt, ih (Nat.le_of_succ_le h), if_pos (Nat.lt_of_succ_le h)]

/-- Past the slots at the start the row has been doubled, and is less than twice too long. -/
theorem isDoubled_capacityAt (h : size < top) :
    IsDoubled size (capacityAt size top) ∧ capacityAt size top < 2 * top := by
  -- Room is made only when the slots below `top` take up the whole row.
  induction top with
  | zero => exact absurd h (Nat.not_lt_zero size)
  | succ top ih =>
    rw [capacityAt]
    by_cases hFirst : size = top
    · subst hFirst
      rw [capacityAt_of_le (Nat.le_refl size), if_neg (Nat.lt_irrefl size), Slots.roomFor]
      refine ⟨?_, by omega⟩
      cases size with
      | zero => exact ⟨0, rfl⟩
      | succ n =>
        have hTwo : Nat.pow 2 1 = 2 := rfl
        refine ⟨1, ?_⟩
        rw [hTwo]
        omega
    · obtain ⟨hDoubled, hLess⟩ := ih (by omega)
      split
      · exact ⟨hDoubled, by omega⟩
      · rename_i hFull
        have hTop : capacityAt size top = top :=
          Nat.le_antisymm (Nat.not_lt.mp hFull) (le_capacityAt size top)
        have hRoom : Slots.roomFor top = 2 * capacityAt size top := by
          rw [Slots.roomFor, hTop]
          omega
        rw [hRoom]
        exact ⟨hDoubled.double, by omega⟩

theorem capacityAt_le_succ (size top : Nat) : capacityAt size top ≤ capacityAt size (top + 1) := by
  rw [capacityAt]
  split
  · exact Nat.le_refl _
  · rw [Slots.roomFor]
    omega

theorem capacityAt_mono {size top other : Nat} (h : top ≤ other) :
    capacityAt size top ≤ capacityAt size other := by
  induction h with
  | refl => exact Nat.le_refl _
  | step _ ih => exact Nat.le_trans ih (capacityAt_le_succ size _)

namespace Stack

variable {s t : Stack} {p : Standing}

/-! ## Levels that were asked for -/

theorem Refines.le_top_of_asking (h : Refines size s p) {m : Move} (hAsk : s.asking? m = some t) :
    t.depth ≤ p.top := by
  obtain ⟨hAt, hTop, -⟩ := h.asking hAsk
  have hLess := hAt.depth_le
  rw [hTop] at hLess
  exact hLess

/-- No run asks for a level beyond its greatest depth. -/
theorem Refines.le_top_of_mem_visited (h : Refines size s p) {level : Int} {moves : List Move}
    (hMem : level ∈ s.visited moves) : level ≤ (p.after s.step s.strict moves).top := by
  induction moves generalizing s p with
  | nil => exact absurd hMem List.not_mem_nil
  | cons m moves ih =>
    obtain ⟨hStep, hStrict, -⟩ := sameSetup_move s m
    rw [visited, List.mem_append] at hMem
    rcases hMem with hFirst | hRest
    · rw [Option.mem_toList, Option.map_eq_some_iff] at hFirst
      obtain ⟨t, hAsk, rfl⟩ := hFirst
      have hHere := h.le_top_of_asking hAsk
      have hLater := Standing.top_le_after s.step s.strict p (m :: moves)
      omega
    · have hNext := ih (h.move m).2 hRest
      rw [hStep, hStrict] at hNext
      exact hNext

/-! ## Behind a run -/

/-- The indent that a move makes is put into a slot for which there is room, as long as the run has
come no deeper than `Slots.roomyLimit`. -/
theorem set_after_fresh (step : Int) (size : Nat) (strict : Bool) (reuse : Reuse)
    {moves : List Move} (m : Move)
    (h : (fresh step size strict reuse).greatestDepth moves ≤ Slots.roomyLimit) :
    let s := (fresh step size strict reuse).after moves
    (s.move m).2.slots = s.slots ∨
      ∃ level text, s.Makes m level ∧ s.slots.set level text = .ok (s.move m).2.slots := by
  intro s
  rcases slots_move s m with ⟨t, level, hAsk, hMaking, hSlots⟩ | ⟨-, hSlots⟩
  · right
    have hLevel := (Refines.after_fresh step size strict reuse moves).le_top_of_asking hAsk
    rw [top_after_fresh step size reuse moves, hMaking.depth_eq] at hLevel
    refine ⟨level, indentText t.width, ⟨t, hAsk, hMaking⟩, ?_⟩
    rw [hSlots]
    exact s.slots.set_eq_put (by omega) _
  · exact Or.inl hSlots

theorem capacity_eq_capacityAt {step : Int} (hStep : 0 < step) (size : Nat) (strict : Bool)
    (reuse : Reuse) (moves : List Move) :
    ((fresh step size strict reuse).after moves).slots.capacity =
      capacityAt size (Standing.start.after step strict moves).top := by
  have h := Refines.after_fresh step size strict reuse moves
  obtain ⟨hSame, -⟩ := sameSetup_after (fresh step size strict reuse) moves
  have hCapacity := h.capacity_eq
  rw [hSame] at hCapacity
  exact hCapacity.trans (if_pos hStep)

/-- The length of the row behind every run of a fresh stack with indents: that at the start as long
as the greatest depth does not exceed it, and then the least one that doubling leads to. It never
gets less; it exceeds every level that was asked for, but for one whose indent is too wide to be
made, which it reaches. Going on to such a level is refused, and changes nothing. Runs with the same
greatest depth lead to the same length. -/
theorem capacity_after_fresh {step : Int} (hStep : 0 < step) (size : Nat) (strict : Bool)
    (reuse : Reuse) (moves : List Move) :
    let start := fresh step size strict reuse
    let s := start.after moves
    let capacity := s.slots.capacity
    let top := start.greatestDepth moves
    (top ≤ size → capacity = size) ∧
      (size < top → IsLeast {c : Nat | IsDoubled size c ∧ top ≤ c} capacity ∧ capacity < 2 * top) ∧
      (∀ more, capacity ≤ (start.after (moves ++ more)).slots.capacity) ∧
      (∀ level ∈ start.visited moves,
        level ≤ capacity ∧ (level * step ≤ memoryLimit → level < capacity)) ∧
      (0 < s.depth → memoryLimit < s.depth * step → s.move .push = (.refused
        (if largestLength < s.depth * step then .widthTooLarge else .outOfMemory), s)) ∧
      ∀ (step' : Int) (strict' : Bool) (reuse' : Reuse) (moves' : List Move), 0 < step' →
        (fresh step' size strict' reuse').greatestDepth moves' = top →
          ((fresh step' size strict' reuse').after moves').slots.capacity = capacity := by
  intro start s capacity top
  have hStart : Refines size start .start := Refines.of_fresh step size strict reuse
  have hTop : ((Standing.start.after step strict moves).top : Int) = top :=
    top_after_fresh step size reuse moves
  have hCapacity : capacity = capacityAt size (Standing.start.after step strict moves).top :=
    capacity_eq_capacityAt hStep size strict reuse moves
  have hReach := le_capacityAt size (Standing.start.after step strict moves).top
  refine ⟨?_, ?_, ?_, ?_, ?_, ?_⟩
  · intro hRoom
    rw [hCapacity]
    exact capacityAt_of_le (by omega)
  · intro hFull
    have hMore : size < (Standing.start.after step strict moves).top := by omega
    obtain ⟨hDoubled, hLess⟩ := isDoubled_capacityAt hMore
    rw [hCapacity, ← hTop]
    simp only [Int.ofNat_le]
    exact ⟨hDoubled.isLeast hReach hLess, by omega⟩
  · intro more
    have hAfter : (start.after (moves ++ more)).slots.capacity =
        capacityAt size (Standing.start.after step strict (moves ++ more)).top :=
      capacity_eq_capacityAt hStep size strict reuse (moves ++ more)
    rw [hCapacity, hAfter, Standing.after, Standing.after, List.foldl_append]
    exact capacityAt_mono (Standing.top_le_after step strict _ more)
  · intro level hMem
    have hLe : level ≤ (Standing.start.after step strict moves).top :=
      hStart.le_top_of_mem_visited hMem
    refine ⟨by omega, fun hFits => ?_⟩
    cases level with
    | negSucc n => omega
    | ofNat n =>
      have hLess : n < (Standing.start.after step strict moves).top :=
        hStart.lt_top_of_mem_visited hFits hMem
      simp only [Int.ofNat_eq_natCast]
      omega
  · intro hDeep hWide
    have hSetup : s.step = step := (sameSetup_after start moves).1
    have hPush := (Refines.after_fresh step size strict reuse moves).move_push
    change if 0 < s.step ∧ 0 < s.depth ∧ memoryLimit < s.depth * s.step then _ else _ at hPush
    rw [hSetup, if_pos ⟨hStep, hDeep, hWide⟩] at hPush
    exact hPush
  · intro step' strict' reuse' moves' hStep' hSame
    have hTop' : ((Standing.start.after step' strict' moves').top : Int) =
        (fresh step' size strict' reuse').greatestDepth moves' :=
      top_after_fresh step' size reuse' moves'
    have hEq : (Standing.start.after step' strict' moves').top =
        (Standing.start.after step strict moves).top := by omega
    rw [capacity_eq_capacityAt hStep', hEq, hCapacity]

/-- A run that goes below the document level, and comes to its greatest depth in a second
attempt. -/
def detour : List Move :=
  [.pop, .push, .push, .push, .reset, .push, .push, .push, .push, .pop]

theorem capacity_after_fresh_detour :
    (0 : Int) < 3 ∧ (fresh 3 3 false .never).greatestDepth detour = 4 ∧
      IsLeast {c : Nat | IsDoubled 3 c ∧ (4 : Int) ≤ c} 6 ∧
      ((fresh 3 3 false .never).after detour).slots.capacity = 6 := by
  have hTop : (fresh 3 3 false .never).greatestDepth detour = 4 := by decide +kernel
  have hCapacity : ((fresh 3 3 false .never).after detour).slots.capacity = 6 := by decide +kernel
  obtain ⟨-, hFull, -⟩ := capacity_after_fresh (show (0 : Int) < 3 by decide) 3 false .never detour
  rw [hTop, hCapacity] at hFull
  exact ⟨by decide, hTop, (hFull (by decide)).1, hCapacity⟩

/-- The row does not exceed every level that was asked for: where the indent of a level is too wide
to be made, no room is made for it. -/
theorem not_forall_lt_capacity :
    ¬∀ (step : Int) (size : Nat) (moves : List Move), 0 < step →
      ∀ level ∈ (fresh step size false .fromSlot).visited moves,
        level < ((fresh step size false .fromSlot).after moves).slots.capacity := by
  intro h
  have hAsked : (1 : Int) ∈ (fresh (2 ^ 63) 0 false .fromSlot).visited [.push, .push] := by
    decide +kernel
  have hCapacity :
      ((fresh (2 ^ 63) 0 false .fromSlot).after [.push, .push]).slots.capacity = 1 := by
    decide +kernel
  have hLess := h (2 ^ 63) 0 [.push, .push] (by decide) 1 hAsked
  rw [hCapacity] at hLess
  exact absurd hLess (by decide)

end Stack

end XmlLayout.Indent

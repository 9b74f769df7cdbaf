import XmlLayout.Proofs.Indent.ClosedForm

/-!
# What the slots hold

A stack fills its slots one after the other, as the greatest depth of a run grows. So the filled
slots are those below the greatest depth, and each of them holds the indent of its level, whatever
resets and refused moves there were on the way.

* `slots_move`: a move makes the indent of one level and puts it into its slot, or leaves the slots
  alone.
* `Refines.lt_top_of_mem_visited`: a level that a run asked for lies below the greatest depth.
* `slots_after_fresh`: what the slots hold behind every run, and what one more move does to them.
-/

namespace XmlLayout.Indent

/-! ## The greatest depth -/

namespace Standing

theorem top_le_move (step : Int) (strict : Bool) (p : Standing) (m : Move) :
    p.top ≤ (p.move step strict m).2.top := by
  cases m with
  | push =>
    simp only [move]
    split
    · exact Nat.le_refl _
    · exact Nat.le_max_left _ _
  | pop =>
    simp only [move]
    split
    · exact Nat.le_refl _
    · exact Nat.le_max_left _ _
  | reset => exact Nat.le_max_left _ _

theorem top_le_after (step : Int) (strict : Bool) (p : Standing) (moves : List Move) :
    p.top ≤ (p.after step strict moves).top := by
  induction moves generalizing p with
  | nil => exact Nat.le_refl _
  | cons m moves ih =>
    exact Nat.le_trans (top_le_move step strict p m) (ih (p.move step strict m).2)

end Standing

namespace Stack

/-! ## Asking for an indent and making it -/

/-- The stack that a move asks for the indent of its level, if the move asks for one. Closing comes
back a level first. -/
def asking? (s : Stack) : Move → Option Stack
  | .push => some s
  | .pop =>
    if s.depth - 1 < 0 ∧ s.strict = true then none
    else some { s with depth := s.depth - 1, width := s.width - s.stride }
  | .reset => none

/-- The indent of the level that a stack is at has to be made, and can be: no slot offers it, and it
is not too wide. -/
structure Making (t : Stack) (level : Nat) : Prop where
  depth_eq : t.depth = level
  step_pos : 0 < t.step
  offered_eq : t.offered? level = none
  fault_eq : widthFault? t.width = none

/-- A move makes the indent of a level. -/
def Makes (s : Stack) (m : Move) (level : Nat) : Prop :=
  ∃ t, s.asking? m = some t ∧ t.Making level

/-- The levels whose indents a run asks for, in their order. -/
def visited (s : Stack) : List Move → List Int
  | [] => []
  | m :: moves => ((s.asking? m).map depth).toList ++ (s.move m).2.visited moves

variable {size : Nat} {s t : Stack} {p : Standing} {m : Move} {level : Nat}

theorem Making.indentAt (h : t.Making level) :
    ∃ text, t.indentAt t.depth = .ok (text, t.slots.put level (indentText t.width)) := by
  have hNot : ¬t.step ≤ 0 := Int.not_le.mpr h.step_pos
  rw [h.depth_eq]
  simp only [Stack.indentAt, hNot, if_false, h.offered_eq, h.fault_eq]
  exact ⟨_, rfl⟩

/-- Where no indent is made, the slots stay as they are. -/
theorem slots_of_indentAt (h : ∀ level, ¬t.Making level) {text : String} {slots : Slots}
    (hOk : t.indentAt t.depth = .ok (text, slots)) : slots = t.slots := by
  cases hDepth : t.depth with
  | negSucc n =>
    rw [hDepth] at hOk
    cases hOk
    rfl
  | ofNat n =>
    rw [hDepth] at hOk
    simp only [Stack.indentAt] at hOk
    split at hOk
    · cases hOk
      rfl
    · rename_i hStep
      split at hOk
      · cases hOk
        rfl
      · rename_i hNone
        split at hOk
        · cases hOk
        · rename_i hWidth
          exact absurd ⟨hDepth, Int.not_le.mp hStep, hNone, hWidth⟩ (h n)

theorem slots_asking (h : s.asking? m = some t) : t.slots = s.slots := by
  cases m with
  | push =>
    obtain rfl := Option.some.inj h
    rfl
  | pop =>
    rw [asking?] at h
    split at h
    · cases h
    · obtain rfl := Option.some.inj h
      rfl
  | reset => cases h

/-- Behind a move the slots are those that come with the indent it asked for. -/
theorem slots_move_of_asking (h : s.asking? m = some t) :
    (s.move m).2.slots = match t.indentAt t.depth with
      | .ok (_, slots) => slots
      | .error _ => s.slots := by
  cases m with
  | push =>
    obtain rfl := Option.some.inj h
    rw [move, push]
    cases s.indentAt s.depth with
    | ok r => rfl
    | error cause => rfl
  | pop =>
    rw [asking?] at h
    split at h
    · cases h
    · rename_i hHeeded
      obtain rfl := Option.some.inj h
      simp only [move, pop, hHeeded, if_false]
      cases indentAt _ (s.depth - 1) with
      | ok r => rfl
      | error cause => rfl
  | reset => cases h

theorem slots_move_of_not_asking (h : s.asking? m = none) : (s.move m).2.slots = s.slots := by
  cases m with
  | push => cases h
  | pop =>
    rw [asking?] at h
    split at h
    · rename_i hRefused
      rw [move, pop, if_pos hRefused]
      rfl
    · cases h
  | reset => rfl

/-- A move makes the indent of one level and puts it into its slot, or leaves the slots alone. -/
theorem slots_move (s : Stack) (m : Move) :
    (∃ t level, s.asking? m = some t ∧ t.Making level ∧
        (s.move m).2.slots = s.slots.put level (indentText t.width)) ∨
      (∀ level, ¬s.Makes m level) ∧ (s.move m).2.slots = s.slots := by
  cases hAsk : s.asking? m with
  | none =>
    right
    refine ⟨?_, slots_move_of_not_asking hAsk⟩
    rintro level ⟨t, hSome, -⟩
    rw [hAsk] at hSome
    cases hSome
  | some t =>
    have hSlots := slots_move_of_asking hAsk
    by_cases hMaking : ∃ level, t.Making level
    · left
      obtain ⟨level, hMaking⟩ := hMaking
      obtain ⟨text, hIndent⟩ := hMaking.indentAt
      refine ⟨t, level, rfl, hMaking, ?_⟩
      rw [hSlots, hIndent, slots_asking hAsk]
    · right
      rw [not_exists] at hMaking
      refine ⟨?_, ?_⟩
      · rintro level ⟨u, hSome, hOther⟩
        obtain rfl := Option.some.inj (hAsk.symm.trans hSome)
        exact hMaking level hOther
      · rw [hSlots]
        cases hIndent : t.indentAt t.depth with
        | error cause => rfl
        | ok r => exact (slots_of_indentAt hMaking hIndent).trans (slots_asking hAsk)

/-! ## Where a run stands -/

/-- Asking changes neither the slots nor the greatest depth. -/
theorem Refines.asking (h : Refines size s p) (hAsk : s.asking? m = some t) :
    Refines size t (p.goTo t.depth) ∧ (p.goTo t.depth).top = p.top ∧ SameSetup t s := by
  have hTop := h.depth_le
  cases m with
  | push =>
    obtain rfl := Option.some.inj hAsk
    have hSame : p.goTo s.depth = p := by
      rw [h.depth_eq, Standing.goTo, Nat.max_eq_left (by omega)]
    rw [hSame]
    exact ⟨h, rfl, rfl, rfl, rfl⟩
  | pop =>
    rw [asking?] at hAsk
    split at hAsk
    · cases hAsk
    · obtain rfl := Option.some.inj hAsk
      have hWidth : s.width - s.stride = (s.depth - 1) * s.stride := by
        rw [h.width_eq, h.depth_eq, Int.sub_mul, Int.one_mul]
      have hLess : s.depth - 1 ≤ p.top := by
        rw [h.depth_eq]
        omega
      refine ⟨h.goTo _ _ (fun _ => hLess) hWidth, ?_, rfl, rfl, rfl⟩
      simp only [Standing.goTo]
      omega
  | reset => cases hAsk

/-- Behind a move that asks for an indent that can be made, the level lies below the greatest
depth. -/
theorem Refines.lt_top_of_asking (h : Refines size s p) (hAsk : s.asking? m = some t)
    (hDepth : t.depth = level) (hFits : level * s.step ≤ memoryLimit) :
    level < (p.move s.step s.strict m).2.top := by
  have hTop := h.depth_le
  have hFrom := h.depth_eq
  cases m with
  | push =>
    obtain rfl := Option.some.inj hAsk
    have hLevel : p.depth = level := hFrom.symm.trans hDepth
    have hFault : openingFault? s.step p.depth = none := by
      unfold openingFault?
      split
      · rfl
      · rw [widthFault?_eq_none_iff, hLevel]
        exact hFits
    simp only [Standing.move, hFault, Standing.goTo]
    omega
  | pop =>
    rw [asking?] at hAsk
    split at hAsk
    · cases hAsk
    · obtain rfl := Option.some.inj hAsk
      have hLevel : s.depth - 1 = level := hDepth
      have hLess : level < p.top := by omega
      exact Nat.lt_of_lt_of_le hLess (Standing.top_le_move s.step s.strict p .pop)
  | reset => cases hAsk

/-- A level that a run asked for lies below the greatest depth behind it, if its indent can be made
at all. -/
theorem Refines.lt_top_of_mem_visited (h : Refines size s p)
    (hFits : level * s.step ≤ memoryLimit) {moves : List Move}
    (hMem : (level : Int) ∈ s.visited moves) :
    level < (p.after s.step s.strict moves).top := by
  induction moves generalizing s p with
  | nil => exact absurd hMem List.not_mem_nil
  | cons m moves ih =>
    obtain ⟨hStep, hStrict, -⟩ := sameSetup_move s m
    rw [visited, List.mem_append] at hMem
    rcases hMem with hFirst | hRest
    · rw [Option.mem_toList, Option.map_eq_some_iff] at hFirst
      obtain ⟨t, hAsk, hDepth⟩ := hFirst
      have hLess := h.lt_top_of_asking hAsk hDepth hFits
      exact Nat.lt_of_lt_of_le hLess (Standing.top_le_after _ _ _ moves)
    · have hNext := ih (h.move m).2 (by rw [hStep]; exact hFits) hRest
      rw [hStep, hStrict] at hNext
      exact hNext

/-- The width of an indent that is made is that of its level. -/
theorem Refines.width_of_making (h : Refines size s p) (hAsk : s.asking? m = some t)
    (hMaking : t.Making level) : t.width = level * s.step := by
  obtain ⟨hAt, -, hStep, -⟩ := h.asking hAsk
  have hWidth : t.width = t.depth * t.stride := hAt.width_eq
  rw [hWidth, hMaking.depth_eq, stride, if_pos hMaking.step_pos, hStep]

/-- Where slots are given again, an indent is made only at the greatest depth. -/
theorem Refines.top_le_of_makes (h : Refines size s p) (hReuse : s.reuse = .fromSlot)
    (hMakes : s.Makes m level) : p.top ≤ level ∧ level * s.step ≤ memoryLimit := by
  obtain ⟨t, hAsk, hMaking⟩ := hMakes
  obtain ⟨hAt, hTop, -, -, hSlot⟩ := h.asking hAsk
  refine ⟨?_, ?_⟩
  · have hEmpty := hMaking.offered_eq
    rw [offered?, hSlot, hReuse] at hEmpty
    dsimp only at hEmpty
    rw [hAt.get?_eq, hTop] at hEmpty
    apply Nat.not_lt.mp
    intro hLess
    rw [if_pos ⟨hMaking.step_pos, hLess⟩] at hEmpty
    cases hEmpty
  · have hFault := hMaking.fault_eq
    rw [h.width_of_making hAsk hMaking] at hFault
    exact widthFault?_eq_none_iff.mp hFault

/-! ## Behind a run -/

/-- What the slots hold once `top` is the greatest depth: the indents of the levels below it, and
nothing else. Without indents there are no slots. -/
structure FilledTo (step top : Int) (slots : Slots) : Prop where
  filled : 0 < step → ∀ i : Nat, i < top → slots.get? i = some (lineIndent (i * step).toNat)
  empty : 0 < step → ∀ i : Nat, top ≤ i → slots.get? i = none
  top_le_capacity : 0 < step → top ≤ slots.capacity
  highest_eq : 0 < step → slots.highest = max (top - 1) 0
  idle : step ≤ 0 → slots.capacity = 0 ∧ slots.highest = 0

theorem Refines.filledTo (h : Refines size s p) : FilledTo s.step p.top s.slots where
  filled hStep i hi := by
    rw [h.get?_eq, if_pos ⟨hStep, by omega⟩]
  empty hStep i hi := by
    rw [h.get?_eq, if_neg]
    omega
  top_le_capacity hStep := by
    have hRoom := le_capacityAt size p.top
    rw [h.capacity_eq, if_pos hStep]
    omega
  highest_eq hStep := by
    have hReached := h.reached_eq
    rw [reached, if_pos hStep] at hReached
    omega
  idle hStep := by
    have hReached := h.reached_eq
    rw [reached, if_neg (by omega)] at hReached
    rw [h.capacity_eq, if_neg (by omega)]
    exact ⟨rfl, hReached⟩

/-- How the slots of a stack are changed by a move. -/
structure Extends (s : Stack) (m : Move) (slots : Slots) : Prop where
  /-- A filled slot keeps its text. -/
  kept : ∀ i text, s.slots.get? i = some text → slots.get? i = some text
  capacity_le : s.slots.capacity ≤ slots.capacity
  /-- There is one slot at most that was filled. -/
  single : ∃ j, ∀ i, i ≠ j → slots.get? i = s.slots.get? i
  /-- An indent that is made goes into the slot of its level. -/
  made : ∀ level, s.Makes m level → slots = s.slots.put level (lineIndent (level * s.step).toNat)
  /-- Where none is made, nothing changes; -/
  unmade : (∀ level, ¬s.Makes m level) → slots = s.slots
  /-- so it is below the document level. -/
  below : s.depth < 0 ∨ s.depth = 0 ∧ m ≠ .push → slots = s.slots

theorem Extends.of_unmade (h : ∀ level, ¬s.Makes m level) : Extends s m s.slots where
  kept _ _ hText := hText
  capacity_le := Nat.le_refl _
  single := ⟨0, fun _ _ => rfl⟩
  made level hMakes := absurd hMakes (h level)
  unmade _ := rfl
  below _ := rfl

/-- Only one level is asked for at a time, and at the document level or above it. -/
theorem Making.level_unique {other : Nat} (h : t.Making level) (hAsk : s.asking? m = some t)
    (hMakes : s.Makes m other) : other = level := by
  obtain ⟨u, hOther, hMaking⟩ := hMakes
  obtain rfl := Option.some.inj (hAsk.symm.trans hOther)
  exact Int.ofNat.inj (hMaking.depth_eq.symm.trans h.depth_eq)

theorem Makes.not_below (h : s.Makes m level) : ¬(s.depth < 0 ∨ s.depth = 0 ∧ m ≠ .push) := by
  obtain ⟨t, hAsk, hMaking⟩ := h
  have hLevel := hMaking.depth_eq
  cases m with
  | push =>
    obtain rfl := Option.some.inj hAsk
    simp only [ne_eq, not_true_eq_false, and_false, or_false]
    omega
  | pop =>
    rw [asking?] at hAsk
    split at hAsk
    · cases hAsk
    · obtain rfl := Option.some.inj hAsk
      have hUp : s.depth - 1 = level := hLevel
      omega
  | reset => cases hAsk

theorem Refines.extends (h : Refines size s p) (m : Move) : Extends s m (s.move m).2.slots := by
  rcases slots_move s m with ⟨t, level, hAsk, hMaking, hPut⟩ | ⟨hUnmade, hSame⟩
  · have hMakes : s.Makes m level := ⟨t, hAsk, hMaking⟩
    obtain ⟨-, -, hStep, -⟩ := h.asking hAsk
    have hPos : 0 < s.step := hStep ▸ hMaking.step_pos
    rw [indentText_eq, h.width_of_making hAsk hMaking] at hPut
    rw [hPut]
    exact {
      kept := by
        intro i text hText
        rw [Slots.get?_put]
        split
        · -- The slot held the very text that is put into it.
          rename_i hi
          rw [hi, h.get?_eq] at hText
          split at hText
          · exact hText
          · cases hText
        · exact hText
      capacity_le := by
        rw [Slots.capacity_put]
        split
        · exact Nat.le_refl _
        · omega
      single := by
        refine ⟨level, ?_⟩
        intro i hi
        rw [Slots.get?_put, if_neg hi]
      made := by
        intro other hOther
        rw [hMaking.level_unique hAsk hOther]
      unmade := fun hNone => absurd hMakes (hNone level)
      below := fun hBelow => absurd hBelow hMakes.not_below }
  · rw [hSame]
    exact .of_unmade hUnmade

/-- Behind every run of a fresh stack, whatever moves were refused in it: the slots below the greatest
depth of the run hold the indents of their levels, and the others are empty; one more move keeps
what is filled and fills one slot at most; and where slots are given again, the indent of a level is
made by the first move that asks for it, if at all. -/
theorem slots_after_fresh (step : Int) (size : Nat) (strict : Bool) (reuse : Reuse)
    (moves : List Move) :
    let start := fresh step size strict reuse
    let s := start.after moves
    FilledTo step (start.greatestDepth moves) s.slots ∧
      ∀ m : Move, Extends s m (s.move m).2.slots ∧
        ∀ level, reuse = .fromSlot → s.Makes m level → (level : Int) ∉ start.visited moves := by
  intro start s
  have hStart : Refines size start .start := Refines.of_fresh step size strict reuse
  have h : Refines size s (Standing.start.after step strict moves) := hStart.after moves
  obtain ⟨hStep, -, hReuse⟩ := sameSetup_after start moves
  change s.step = step at hStep
  change s.reuse = reuse at hReuse
  refine ⟨?_, ?_⟩
  · have hFilled := h.filledTo
    rw [hStep, top_after_fresh step size reuse moves] at hFilled
    exact hFilled
  · intro m
    refine ⟨h.extends m, ?_⟩
    intro level hSlot hMakes hMem
    obtain ⟨hTop, hFits⟩ := h.top_le_of_makes (hReuse.trans hSlot) hMakes
    rw [hStep] at hFits
    exact Nat.not_lt.mpr hTop (hStart.lt_top_of_mem_visited hFits hMem)

theorem slots_after_fresh_push :
    ((fresh 3 0 false .fromSlot).after [.push]).Makes .push 1 ∧
      ((1 : Nat) : Int) ∉ (fresh 3 0 false .fromSlot).visited [.push] := by
  have hMakes : ((fresh 3 0 false .fromSlot).after [.push]).Makes .push 1 :=
    ⟨_, rfl, by decide +kernel, by decide +kernel, by decide +kernel, by decide +kernel⟩
  obtain ⟨-, hMove⟩ := slots_after_fresh 3 0 false .fromSlot [.push]
  exact ⟨hMakes, (hMove .push).2 1 rfl hMakes⟩

end Stack

end XmlLayout.Indent

import XmlLayout.Proofs.Indent.Standing

/-!
# Giving indents again cannot be observed

Two stacks with the same step that are equally strict give the same replies to the same moves, and
are alike behind each of them, whether they give the indents in their slots again or make them
anew, and whatever their sizes are. Both stand where the moves lead to, and a standing leaves no
choice but how many empty slots there are.

* `Refines.alike`: stacks that stand at the same place are alike.
* `runBoth_fresh_alike`: so are two fresh stacks behind each move of a run on both.
-/

namespace XmlLayout.Indent

theorem Slots.ext_get? {s t : Slots} (hHighest : s.highest = t.highest)
    (hCapacity : s.capacity = t.capacity) (hGet : ∀ i, s.get? i = t.get? i) : s = t := by
  have hCells : s.cells = t.cells := by
    apply Array.ext hCapacity
    intro i hs ht
    have hi := hGet i
    simpa only [get?, Array.getElem?_eq_getElem hs, Array.getElem?_eq_getElem ht,
      Option.join_some] using hi
  cases s
  cases t
  simp_all

namespace Stack

/-- Two stacks that cannot be told apart, but for empty slots. -/
structure Alike (s t : Stack) : Prop where
  depth_eq : s.depth = t.depth
  width_eq : s.width = t.width
  reached_eq : s.reached = t.reached
  shown_eq : s.shown = t.shown
  /-- The same slots are filled, and with the same texts. -/
  get?_eq : ∀ i, s.slots.get? i = t.slots.get? i

variable {size size' : Nat} {s t : Stack} {p : Standing}

theorem Refines.alike (hs : Refines size s p) (ht : Refines size' t p) (hStep : s.step = t.step) :
    Alike s t := by
  have hDepth : s.depth = t.depth := hs.depth_eq.trans ht.depth_eq.symm
  have hReached : s.reached = t.reached := by
    rw [hs.reached_eq, ht.reached_eq, hStep]
  exact {
    depth_eq := hDepth
    width_eq := by simp only [hs.width_eq, ht.width_eq, stride, hStep]
    reached_eq := hReached
    shown_eq := by
      unfold shown
      rw [hDepth, hReached, hStep]
    get?_eq := fun i => by rw [hs.get?_eq, ht.get?_eq, hStep] }

/-- If both began with the same number of slots, then the slots are the same altogether. -/
theorem Refines.slots_eq (hs : Refines size s p) (ht : Refines size t p)
    (hStep : s.step = t.step) : s.slots = t.slots := by
  have hAlike := hs.alike ht hStep
  refine Slots.ext_get? hAlike.reached_eq ?_ hAlike.get?_eq
  rw [hs.capacity_eq, ht.capacity_eq, hStep]

/-- Stacks that are set up alike and began with the same number of slots are the same altogether. -/
theorem Refines.eq_of_sameSetup (hs : Refines size s p) (ht : Refines size t p)
    (hSetup : SameSetup s t) : s = t := by
  obtain ⟨hStep, hStrict, hReuse⟩ := hSetup
  have hAlike := hs.alike ht hStep
  have hSlots := hs.slots_eq ht hStep
  have hDepth := hAlike.depth_eq
  have hWidth := hAlike.width_eq
  cases s
  cases t
  simp_all

/-- Two stacks at the same place reply alike to each move of a run, and stay at the same place. -/
theorem Refines.runBoth (hs : Refines size s p) (ht : Refines size' t p)
    (hStep : s.step = t.step) (hStrict : s.strict = t.strict) (moves : List Move) :
    ∀ entry ∈ s.runBoth t moves, entry.1.1 = entry.2.1 ∧ entry.1.2.step = entry.2.2.step ∧
      ∃ q, Refines size entry.1.2 q ∧ Refines size' entry.2.2 q := by
  induction moves generalizing s t p with
  | nil => exact fun entry hEntry => absurd hEntry (by simp [Stack.runBoth])
  | cons m moves ih =>
    obtain ⟨hReply, hNext⟩ := hs.move m
    obtain ⟨hReply', hNext'⟩ := ht.move m
    rw [← hStep, ← hStrict] at hReply' hNext'
    obtain ⟨hs1, hs2, -⟩ := sameSetup_move s m
    obtain ⟨ht1, ht2, -⟩ := sameSetup_move t m
    have hStep' : (s.move m).2.step = (t.move m).2.step := by rw [hs1, ht1, hStep]
    have hStrict' : (s.move m).2.strict = (t.move m).2.strict := by rw [hs2, ht2, hStrict]
    intro entry hEntry
    rcases List.mem_cons.mp hEntry with rfl | hEntry
    · exact ⟨hReply.trans hReply'.symm, hStep', _, hNext, hNext'⟩
    · exact ih hNext hNext' hStep' hStrict' entry hEntry

/-- Two fresh stacks with the same step, equally strict, whatever their sizes and whether or not
they give indents again: each move of a run has the same reply on both, behind it they are alike,
and if the sizes are the same then so are all the slots. -/
theorem runBoth_fresh_alike (step : Int) (strict : Bool) (size size' : Nat) (reuse reuse' : Reuse)
    (moves : List Move) :
    ∀ entry ∈ (fresh step size strict reuse).runBoth (fresh step size' strict reuse') moves,
      entry.1.1 = entry.2.1 ∧ Alike entry.1.2 entry.2.2 ∧
        (size = size' → entry.1.2.slots.capacity = entry.2.2.slots.capacity ∧
          entry.1.2.slots = entry.2.2.slots) := by
  intro entry hEntry
  have hs := Refines.of_fresh step size strict reuse
  have ht := Refines.of_fresh step size' strict reuse'
  obtain ⟨hReply, hStep, q, hs', ht'⟩ := hs.runBoth ht rfl rfl moves entry hEntry
  refine ⟨hReply, hs'.alike ht' hStep, ?_⟩
  rintro rfl
  have hSlots := hs'.slots_eq ht' hStep
  exact ⟨congrArg Slots.capacity hSlots, hSlots⟩

theorem runBoth_fresh_alike_pop :
    ∃ entry ∈ (fresh 3 0 false .fromSlot).runBoth (fresh 3 16 false .never) [.push, .push, .pop],
      entry.2.1 = .text "\n   " ∧ entry.1.1 = entry.2.1 ∧ Alike entry.1.2 entry.2.2 := by
  have hThird {a b c : (Reply × Stack) × (Reply × Stack)} : c ∈ [a, b, c] := by simp
  obtain ⟨hReply, hAlike, -⟩ :=
    runBoth_fresh_alike 3 false 0 16 .fromSlot .never [.push, .push, .pop] _ hThird
  exact ⟨_, hThird, by decide +kernel, hReply, hAlike⟩

end Stack

end XmlLayout.Indent

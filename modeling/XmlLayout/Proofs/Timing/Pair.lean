import XmlLayout.Proofs.Decimal.Quotient
import XmlLayout.Proofs.Writing.Sharing
import XmlLayout.Timing.Pair

/-!
# Pairs of writers in use

However often a pair of writers was used, each of the two gives the text of the next tree, and the
times that were measured have an average. The times are bounded by the clock: where all its readings
lie close together, no average is too large, and the report has nothing that could end it early.

* `Stopwatch.Within.average`, `Stopwatch.Within.ratio`: the figures of the report.
* `Pair.run_encode`, `Pair.run_encodeReference`: what a call of a writer does.
* `Pair.Steady.encode`, `Pair.Steady.encodeReference`: what the writers give.
* `Pair.encode_tick`, `Pair.encodeReference_tick`: what they do, whatever the clock says.
* `Pair.Steady.report`: the report.
-/

namespace XmlLayout.Timing

open Decimal (Binary64)
open Document Indent Writing

/-! ## Stopwatches -/

/-- The clock when it has been read some more times. -/
def Clock.later (clock : Clock) (n : Nat) : Clock :=
  { clock with reads := clock.reads + n }

/-- No two readings of a clock are as far apart as the limit. -/
def Clock.Within (limit : Nat) (clock : Clock) : Prop :=
  ∀ i j, clock.reading i - clock.reading j < limit

namespace Stopwatch

/-- A stopwatch that was started and stopped at the next two readings of a clock. -/
def timed (w : Stopwatch) (clock : Clock) : Stopwatch :=
  (w.startAt (clock.reading clock.reads)).stopAt (clock.reading (clock.reads + 1))

/-- A stopwatch that has measured no time that is as long as the limit. -/
structure Within (limit : Nat) (w : Stopwatch) : Prop where
  count_nonneg : 0 ≤ w.count
  total_le : w.total.natAbs + w.count.natAbs ≤ w.count.natAbs * limit

variable {limit : Nat} {w other : Stopwatch}

theorem within_empty (limit : Nat) : Within limit {} where
  count_nonneg := Int.le_refl 0
  total_le := Nat.zero_le _

theorem Within.timed {clock : Clock} (h : w.Within limit) (hClock : clock.Within limit) :
    (w.timed clock).Within limit := by
  obtain ⟨hCount, hTotal⟩ := h
  have hForth := hClock (clock.reads + 1) clock.reads
  have hBack := hClock clock.reads (clock.reads + 1)
  have hNext : (w.count + 1).natAbs * limit = w.count.natAbs * limit + limit := by
    have hSucc : (w.count + 1).natAbs = w.count.natAbs + 1 := by omega
    rw [hSucc, Nat.add_mul, Nat.one_mul]
  constructor
  · exact Int.le_add_one hCount
  · simp only [Stopwatch.timed, stopAt, startAt]
    omega

theorem Within.average (h : w.Within limit) (hLimit : limit ≤ Binary64.halfRange) :
    ∃ x, w.average = .ok x := by
  unfold Stopwatch.average
  split
  · exact ⟨none, rfl⟩
  · rename_i hCount
    have hSome : 0 < w.count.natAbs := Int.natAbs_pos.mpr hCount
    have hMost : w.count.natAbs * limit ≤ w.count.natAbs * Binary64.halfRange :=
      Nat.mul_le_mul_left _ hLimit
    have hLess : w.total.natAbs < w.count.natAbs * Binary64.halfRange := by
      have hTotal := h.total_le
      omega
    obtain ⟨x, hx⟩ := Binary64.exists_quotient? hLess
    rw [hx]
    exact ⟨some x, rfl⟩

theorem Within.ratio (h : w.Within limit) (hOther : other.Within limit)
    (hLimit : limit ≤ Binary64.halfRange) : ∃ x, w.ratio other = .ok x := by
  obtain ⟨x, hx⟩ := h.average hLimit
  obtain ⟨y, hy⟩ := hOther.average hLimit
  unfold Stopwatch.ratio
  rw [hx, hy]
  cases y with
  | none => exact ⟨none, rfl⟩
  | some y =>
    dsimp only
    split
    · exact ⟨none, rfl⟩
    · exact ⟨_, rfl⟩

end Stopwatch

/-! ## Pairs -/

/-- A step of a computation that has a state, behind another one. -/
theorem bind_of_run {σ α β : Type} {x : StateM σ α} {f : α → StateM σ β} {s s' : σ} {a : α}
    (h : x.run s = (a, s')) : (x >>= f).run s = (f a).run s' := by
  rw [StateT.run_bind, h]
  rfl

namespace Pair

/-- A pair that has been used: its writers are in states that runs lead to, and its stopwatches have
measured times below the limit. -/
structure Steady (step : Int) (limit : Nat) (p : Pair) : Prop where
  primary : p.primary.Steady 16 step
  reference : p.reference.Steady 16 step
  primaryWatch : p.primaryWatch.Within limit
  referenceWatch : p.referenceWatch.Within limit

theorem steady_ofStep (step : Int) (limit : Nat) (profile : Option String) :
    (ofStep step profile).Steady step limit where
  primary := ⟨rfl, _, .of_fresh step 16 false .fromSlot⟩
  reference := ⟨rfl, _, .of_fresh step 16 false .never⟩
  primaryWatch := Stopwatch.within_empty limit
  referenceWatch := Stopwatch.within_empty limit

/-- A writer gives the text of a tree, whatever it has written before. -/
theorem textOf_of_steady {size : Nat} {step : Int} {w : Writer} (h : w.Steady size step)
    (root : Node) :
    (textOf w root).1 = encodeToText root step ∧ (textOf w root).2.Steady size step := by
  obtain ⟨hStep, p, hStack⟩ := h
  -- Neither the depth that the stack was left at nor its slots are in the outline.
  obtain ⟨hText, hFault, hSetup, hAfter⟩ := encodeWith_eq_outline hStack root
  refine ⟨?_, hSetup.1.trans hStep, _, hAfter⟩
  rw [hStep] at hText hFault
  rw [encodeToText_eq_outline, ← hFault, ← hText]
  rfl

variable {step : Int} {limit : Nat} {p : Pair} {clock : Clock}

/-- Times a writer by a clock that is looked at before and behind it. -/
theorem measured_tick (w : Writer) (watch : Stopwatch) (root : Node) (clock : Clock) :
    (measured Clock.tick w watch root).run clock =
      (((textOf w root).1, (textOf w root).2, watch.timed clock), clock.later 2) :=
  rfl

/-- What the first writer does, be it timed or profiled. -/
theorem run_encode (p : Pair) (root : Node) (clock : Clock) :
    (p.encode Clock.tick root).run clock =
      if p.profile.isSome then
        (((textOf p.primary root).1, { p with primary := (textOf p.primary root).2 }), clock)
      else
        (((textOf p.primary root).1, { p with
          primary := (textOf p.primary root).2
          primaryWatch := p.primaryWatch.timed clock }), clock.later 2) := by
  unfold Pair.encode
  split
  · rfl
  · rw [bind_of_run (measured_tick p.primary p.primaryWatch root clock)]
    rfl

/-- What the reference does, if it has anything to do. -/
theorem run_encodeReference (p : Pair) (root : Node) (clock : Clock) :
    (p.encodeReference Clock.tick root).run clock =
      if p.profile.isSome then ((.ok none, p), clock)
      else
        (((textOf p.reference root).1.map some, { p with
          reference := (textOf p.reference root).2
          referenceWatch := p.referenceWatch.timed clock }), clock.later 2) := by
  unfold Pair.encodeReference
  split
  · rfl
  · rw [bind_of_run (measured_tick p.reference p.referenceWatch root clock)]
    rfl

theorem Steady.encode (h : p.Steady step limit) (hClock : clock.Within limit) (root : Node) :
    ∃ q clock', (p.encode Clock.tick root).run clock = ((encodeToText root step, q), clock') ∧
      q.Steady step limit ∧ q.profile = p.profile ∧ clock'.Within limit := by
  obtain ⟨hText, hAfter⟩ := textOf_of_steady h.primary root
  rw [← hText, run_encode]
  split
  · exact ⟨_, _, rfl, { h with primary := hAfter }, rfl, hClock⟩
  · exact ⟨_, _, rfl, { h with
      primary := hAfter
      primaryWatch := h.primaryWatch.timed hClock }, rfl, hClock⟩

/-- The reference gives the same text, unless the first writer is profiled. -/
theorem Steady.encodeReference (h : p.Steady step limit) (hClock : clock.Within limit)
    (root : Node) :
    ∃ q clock', (p.encodeReference Clock.tick root).run clock =
        ((if p.profile.isSome then .ok none else (encodeToText root step).map some, q), clock') ∧
      q.Steady step limit ∧ q.profile = p.profile ∧ clock'.Within limit := by
  obtain ⟨hText, hAfter⟩ := textOf_of_steady h.reference root
  rw [← hText, run_encodeReference]
  split
  · exact ⟨_, _, rfl, h, rfl, hClock⟩
  · exact ⟨_, _, rfl, { h with
      reference := hAfter
      referenceWatch := h.referenceWatch.timed hClock }, rfl, hClock⟩

/-- Encoding a tree changes the first writer and its stopwatch, whatever the clock says. -/
theorem encode_tick (p : Pair) (root : Node) (clock : Clock) :
    ∃ watch clock', (p.encode Clock.tick root).run clock =
      (((textOf p.primary root).1,
        { p with primary := (textOf p.primary root).2, primaryWatch := watch }), clock') := by
  rw [run_encode]
  split
  · exact ⟨p.primaryWatch, _, rfl⟩
  · exact ⟨_, _, rfl⟩

/-- The reference changes only if it is asked. -/
theorem encodeReference_tick (p : Pair) (root : Node) (clock : Clock) :
    ∃ writer watch clock', (p.encodeReference Clock.tick root).run clock =
        ((if p.profile.isSome then .ok none else (textOf p.reference root).1.map some,
          { p with reference := writer, referenceWatch := watch }), clock') ∧
      (writer = p.reference ∨ writer = (textOf p.reference root).2) := by
  rw [run_encodeReference]
  split
  · exact ⟨p.reference, p.referenceWatch, _, rfl, Or.inl rfl⟩
  · exact ⟨_, _, _, rfl, Or.inr rfl⟩

theorem Steady.report (h : p.Steady step limit) (hLimit : limit ≤ Binary64.halfRange) :
    (p.report none).2 = none := by
  obtain ⟨primary, hPrimary⟩ := h.primaryWatch.average hLimit
  obtain ⟨reference, hReference⟩ := h.referenceWatch.average hLimit
  obtain ⟨ratio, hRatio⟩ := h.referenceWatch.ratio h.primaryWatch hLimit
  unfold Pair.report
  cases p.profile with
  | some file => rfl
  | none =>
    rw [hPrimary, hReference, hRatio]

end Pair

end XmlLayout.Timing

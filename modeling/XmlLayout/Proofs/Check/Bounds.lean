import XmlLayout.Proofs.Check.Measures

/-!
# Bounds that leave a choice

A choice among nothing ends a check: this is what comes of a bound below zero. Where no bound is below
zero there is always something to choose from, whatever is drawn. Nothing else that can end a check is
taken for it.

* `round_roomy`, `rounds_roomy`: the document of each round is made.
* `run_ending_ne`: a check does not choose among nothing.
-/

namespace XmlLayout.Check

open Document (Node)
open Sample Timing Writing

/-- What a check works with where there is always something to choose from: no bound is below zero. -/
structure Bench.Roomy (step : Int) (b : Bench) : Prop where
  ready : b.Ready step
  deepest : 0 ≤ b.bounds.deepest
  widest : 0 ≤ b.bounds.widest

variable {step : Int} {b : Bench}

theorem wideFault_ne_emptyRange (step : Int) : wideFault step ≠ .emptyRange := by
  unfold wideFault
  split
  · exact Error.noConfusion
  · exact Error.noConfusion

/-- The document of a round is always made. -/
theorem round_roomy (h : b.Roomy step) (clock : Clock) :
    ∃ halt b' clock', (round Clock.tick b).run clock = ((halt, b'), clock') ∧
      halt ≠ some (.raised .emptyRange) ∧ (halt = none → b'.Roomy step) := by
  obtain ⟨root, draws, hMade, -⟩ := (makes_document h.deepest h.widest).sound b.draws
  by_cases hFits : Fits step root.height
  · obtain ⟨pair, clock', hRound, hReady, -⟩ := round_of_fits h.ready hMade hFits clock
    exact ⟨_, _, _, hRound, nofun, fun _ => ⟨hReady, h.deepest, h.widest⟩⟩
  · obtain ⟨pair, clock', hRound⟩ := round_of_wide h.ready hMade hFits clock
    refine ⟨_, _, _, hRound, ?_, nofun⟩
    intro hSame
    exact wideFault_ne_emptyRange step (Halt.raised.inj (Option.some.inj hSame))

theorem rounds_roomy (n : Nat) (h : b.Roomy step) (clock : Clock) :
    ((rounds Clock.tick b n).run clock).1.1 ≠ some (.raised .emptyRange) := by
  induction n generalizing b clock with
  | zero => exact nofun
  | succ n ih =>
    obtain ⟨halt, b', clock', hRound, hHalt, hRoomy⟩ := round_roomy h clock
    cases halt with
    | none =>
      rw [rounds_succ_of_round n hRound]
      exact ih (hRoomy rfl) clock'
    | some halt =>
      rw [rounds, bind_of_run hRound]
      exact hHalt

theorem average_eq_error {w : Stopwatch} {cause : Error} (h : w.average = .error cause) :
    cause = .quotientTooLarge := by
  unfold Stopwatch.average at h
  split at h
  · cases h
  · split at h
    · cases h
    · cases h
      rfl

theorem ratio_eq_error {w other : Stopwatch} {cause : Error} (h : w.ratio other = .error cause) :
    cause = .quotientTooLarge := by
  unfold Stopwatch.ratio at h
  split at h
  · rename_i hOther
    cases h
    exact average_eq_error hOther
  · cases h
  · split at h
    · cases h
    · cases hAverage : w.average with
      | error first =>
        rw [hAverage] at h
        cases h
        exact average_eq_error hAverage
      | ok x =>
        rw [hAverage] at h
        cases h

/-- A report fails for a quotient, or for the file of a profile. -/
theorem report_fault {p : Pair} {obstacle : Option Error} {cause : Error}
    (h : (p.report obstacle).2 = some cause) :
    cause = .quotientTooLarge ∨ obstacle = some cause := by
  unfold Pair.report at h
  split at h
  · split at h
    · exact Or.inr h
    · cases h
  · split at h
    · rename_i hPrimary
      cases h
      exact Or.inl (average_eq_error hPrimary)
    · dsimp only at h
      split at h
      · cases h
      · rename_i hReference
        cases h
        exact Or.inl (average_eq_error hReference)
      · rename_i hRatio _
        cases h
        exact Or.inl (ratio_eq_error hRatio)

theorem makingFault?_ne (files : Files) (path : String) :
    makingFault? files path ≠ some .emptyRange := by
  unfold makingFault?
  split
  all_goals exact nofun

theorem conclude_ending_ne (files : Files) {result : Option Halt × Bench}
    (h : result.1 ≠ some (.raised .emptyRange)) :
    (conclude files result).ending ≠ .raised .emptyRange := by
  obtain ⟨halt, b⟩ := result
  intro hEnding
  unfold conclude at hEnding
  rcases halt with _ | ⟨cause⟩ | what
  · dsimp only at hEnding
    cases hReport : b.pair.report (b.pair.profile.bind (makingFault? files)) with
    | mk printed fault =>
      rw [hReport] at hEnding
      cases fault with
      | none => cases hEnding
      | some cause =>
        cases hEnding
        rcases report_fault (congrArg Prod.snd hReport) with hCause | hObstacle
        · cases hCause
        · obtain ⟨file, -, hFault⟩ := Option.bind_eq_some_iff.mp hObstacle
          exact makingFault?_ne files file hFault
  · cases hEnding
    exact h rfl
  · cases hEnding

/-- A check with no bound below zero never chooses among nothing. -/
theorem run_ending_ne {settings : Settings} (hDeepest : 0 ≤ settings.deepest)
    (hWidest : 0 ≤ settings.widest) (around : Surroundings) (clock : Clock) :
    ((run Clock.tick settings around).run clock).1.ending ≠ .raised .emptyRange := by
  unfold run
  dsimp only
  split
  · rename_i ending complaints hRefused
    obtain ⟨file, -, hRefusal⟩ := Option.bind_eq_some_iff.mp hRefused
    rintro rfl
    unfold refusal? at hRefusal
    split at hRefusal
    · cases hRefusal
    · cases hRefusal
    · cases hRefusal
  · split
    · exact nofun
    · split
      · exact nofun
      · have hRoomy : (Bench.ofSettings settings around.draws).Roomy settings.step :=
          ⟨ready_ofSettings settings around.draws, hDeepest, hWidest⟩
        exact conclude_ending_ne around.toFiles (rounds_roomy settings.loops.toNat hRoomy clock)

end XmlLayout.Check

import Mathlib.Algebra.BigOperators.Group.Finset.Basic
import XmlLayout.Proofs.Check.Effects
import XmlLayout.Proofs.Timing.Rack

/-!
# What a check measures and draws

In a round of a check a document is made, written, read back and written by the reference. Only the
writing is timed: each writer has two readings of the clock, so a round takes four, and from the
number of rounds before it the readings of a round are known. Only the making draws numbers: so the
documents are those of as many calls one behind the other, whatever the writers and the clock do.

Where a document cannot be written since an indent would be too wide, the check stops behind it.
There is no report then, and what would have come next is not made.

* `round_of_fits`, `round_of_wide`: one round.
* `rounds_reach`: the rounds up to one of them.
* `rounds_of_fits`, `rounds_of_wide`: all rounds.
* `run_measures`: the check.
-/

namespace XmlLayout

open Document (Node)
open Sample Timing Writing

/-! ## Stopwatches -/

namespace Timing

theorem Clock.ahead_later (clock : Clock) (m n : Nat) :
    (clock.later m).ahead n = clock.ahead (m + n) :=
  congrArg clock.reading (Nat.add_assoc _ m n)

/-- The times from the readings at a place to the next ones, in rounds of four readings. -/
def Clock.timesInRounds (clock : Clock) (place rounds : Nat) : Int :=
  ∑ i ∈ Finset.range rounds, (clock.ahead (4 * i + place + 1) - clock.ahead (4 * i + place))

theorem Clock.timesInRounds_succ (clock : Clock) (place rounds : Nat) :
    clock.timesInRounds place (rounds + 1) =
      (clock.ahead (place + 1) - clock.ahead place) +
        (clock.later 4).timesInRounds place rounds := by
  have hLater (i j : Nat) : clock.ahead (4 * (i + 1) + j) = (clock.later 4).ahead (4 * i + j) := by
    rw [Clock.ahead_later]
    congr 1
    omega
  have hNext (i : Nat) :
      clock.ahead (4 * (i + 1) + place + 1) = (clock.later 4).ahead (4 * i + place + 1) :=
    hLater i (place + 1)
  unfold Clock.timesInRounds
  rw [Finset.sum_range_succ', Int.add_comm, Nat.mul_zero, Nat.zero_add]
  simp only [hNext, hLater]

variable {w v : Stopwatch}

/-- The reading at the latest start is in no figure. -/
theorem Stopwatch.average_congr (hTotal : w.total = v.total) (hCount : w.count = v.count) :
    w.average = v.average := by
  rw [Stopwatch.average, Stopwatch.average, hTotal, hCount]

theorem Pair.report_congr {p q : Pair} (hProfile : p.profile = q.profile)
    (hPrimary : p.primaryWatch.average = q.primaryWatch.average)
    (hReference : p.referenceWatch.average = q.referenceWatch.average) (obstacle : Option Error) :
    p.report obstacle = q.report obstacle := by
  unfold Pair.report Stopwatch.ratio
  rw [hProfile, hPrimary, hReference]

/-- A pair that has measured as many times for each writer as there were rounds. -/
def Pair.ofTimes (rounds : Nat) (cached uncached : Int) : Pair :=
  { ofStep 0 none with
    primaryWatch := { total := cached, count := rounds }
    referenceWatch := { total := uncached, count := rounds } }

end Timing

namespace Check

variable {step : Int} {b : Bench} {root : Node} {draws : Draws}

/-! ## Rounds -/

theorem encodeToText_of_made {bounds : Bounds} {start : Draws}
    (hMade : (document bounds).run start = .ok root draws) :
    encodeToText root step =
      if Fits step root.height then .ok (render step 0 root) else .error (wideFault step) := by
  have hWritable : root.Every Writable :=
    (makesOnly_element bounds 0 start root draws hMade).mono fun _ _ hTag =>
      writable_of_readable hTag.readable
  split
  · rename_i hFits
    exact encodeToText_of_fits hWritable hFits
  · rename_i hWide
    exact encodeToText_of_wide hWritable hWide

/-- Where nothing is found different, the reference gives the same text, if it is asked. -/
theorem run_verify {text : String} (h : b.Ready step) (hText : encodeToText root step = .ok text)
    (hSame : differs root text = .ok false) (clock : Clock) :
    (verify Clock.tick b root text).run clock =
      if b.pair.profile.isSome then ((none, b), clock)
      else ((none, { b with pair := { b.pair with
        reference := (Pair.textOf b.pair.reference root).2
        referenceWatch := b.pair.referenceWatch.timed clock } }), clock.later 2) := by
  have hReference := Pair.run_encodeReference b.pair root clock
  rw [(Pair.textOf_of_steady h.reference root).1, hText] at hReference
  unfold verify
  rw [hSame]
  dsimp only
  split
  · rename_i hProfiled
    rw [if_pos hProfiled] at hReference
    rw [bind_of_run hReference]
    rfl
  · rename_i hTimed
    rw [if_neg hTimed] at hReference
    rw [bind_of_run hReference]
    dsimp only [Except.map]
    rw [if_pos rfl]
    rfl

/-- A round whose document can be written does not halt the check. It draws what the making of the
document draws, and unless there is a profile it reads the clock twice for each writer. -/
theorem round_of_fits (h : b.Ready step) (hMade : (document b.bounds).run b.draws = .ok root draws)
    (hFits : Fits step root.height) (clock : Clock) :
    ∃ pair clock',
      (round Clock.tick b).run clock = ((none, ⟨b.bounds, draws, pair⟩), clock') ∧
      (⟨b.bounds, draws, pair⟩ : Bench).Ready step ∧ pair.profile = b.pair.profile ∧
      (b.pair.profile = none → clock' = clock.later 4 ∧
        pair.primaryWatch = b.pair.primaryWatch.timed clock ∧
        pair.referenceWatch = b.pair.referenceWatch.timed (clock.later 2)) := by
  have hText : encodeToText root step = .ok (render step 0 root) := by
    rw [encodeToText_of_made hMade, if_pos hFits]
  have hSame := differs_of_made hMade hText
  obtain ⟨hPrimary, hPrimarySteady⟩ := Pair.textOf_of_steady h.primary root
  have hReferenceSteady := (Pair.textOf_of_steady h.reference root).2
  have hEncode := Pair.run_encode b.pair root clock
  rw [hPrimary, hText] at hEncode
  unfold round
  rw [hMade]
  dsimp only
  have hWritten (watch : Stopwatch) : Bench.Ready step ⟨b.bounds, draws, { b.pair with
      primary := (Pair.textOf b.pair.primary root).2
      primaryWatch := watch }⟩ := ⟨hPrimarySteady, h.reference⟩
  by_cases hProfiled : b.pair.profile.isSome = true
  · -- Neither stopwatch is used, and the reference has nothing to do.
    rw [if_pos hProfiled] at hEncode
    rw [bind_of_run hEncode]
    dsimp only
    rw [run_verify (hWritten _) hText hSame, if_pos hProfiled]
    refine ⟨_, _, rfl, hWritten _, rfl, fun hNone => ?_⟩
    rw [hNone] at hProfiled
    cases hProfiled
  · rw [if_neg hProfiled] at hEncode
    rw [bind_of_run hEncode]
    dsimp only
    rw [run_verify (hWritten _) hText hSame, if_neg hProfiled]
    exact ⟨_, _, rfl, ⟨hPrimarySteady, hReferenceSteady⟩, rfl, fun _ => ⟨rfl, rfl, rfl⟩⟩

/-- A round whose document cannot be written halts the check when the document is made. -/
theorem round_of_wide (h : b.Ready step) (hMade : (document b.bounds).run b.draws = .ok root draws)
    (hWide : ¬Fits step root.height) (clock : Clock) :
    ∃ pair clock', (round Clock.tick b).run clock =
      ((some (.raised (wideFault step)), ⟨b.bounds, draws, pair⟩), clock') := by
  obtain ⟨hPrimary, -⟩ := Pair.textOf_of_steady h.primary root
  obtain ⟨watch, clock', hEncode⟩ := b.pair.encode_tick root clock
  rw [hPrimary, encodeToText_of_made hMade, if_neg hWide] at hEncode
  unfold round
  rw [hMade]
  dsimp only
  rw [bind_of_run hEncode]
  exact ⟨_, _, rfl⟩

/-- Where the rounds before it do not halt, the check comes to a round with the document that the
numbers give in this place. By induction on the rounds before it. -/
theorem rounds_reach {roots : List Node} {n k : Nat} (h : b.Ready step)
    (hMade : (repeatedly (document b.bounds) n).run b.draws = .ok roots draws)
    (hRoot : roots[k]? = some root) (hBefore : ∀ earlier ∈ roots.take k, Fits step earlier.height)
    (clock : Clock) :
    ∃ b' clock' after, (rounds Clock.tick b k).run clock = ((none, b'), clock') ∧
      b'.Ready step ∧ (document b'.bounds).run b'.draws = .ok root after ∧
      (repeatedly (document b.bounds) (k + 1)).run b.draws = .ok (roots.take (k + 1)) after := by
  induction k generalizing b n roots clock with
  | zero =>
    cases n with
    | zero =>
      cases hMade
      cases hRoot
    | succ n =>
      obtain ⟨first, rest, between, hFirst, -, rfl⟩ := exists_cons_of_repeatedly hMade
      cases hRoot
      exact ⟨b, clock, between, rfl, h, hFirst, bind_of_made hFirst⟩
  | succ k ih =>
    cases n with
    | zero =>
      cases hMade
      cases hRoot
    | succ n =>
      obtain ⟨first, rest, between, hFirst, hRest, rfl⟩ := exists_cons_of_repeatedly hMade
      rw [List.take_succ_cons, List.forall_mem_cons] at hBefore
      obtain ⟨pair, clock₁, hRound, hReady, -⟩ := round_of_fits h hFirst hBefore.1 clock
      obtain ⟨b', clock', after, hRun, hReady', hRoot', hTake⟩ :=
        ih (b := ⟨b.bounds, between, pair⟩) hReady hRest hRoot hBefore.2 clock₁
      refine ⟨b', clock', after, (rounds_succ_of_round k hRound).trans hRun, hReady', hRoot', ?_⟩
      refine (bind_of_made hFirst).trans ?_
      exact bind_of_made hTake

theorem rounds_add {b' : Bench} {clock clock' : Clock} (m n : Nat)
    (h : (rounds Clock.tick b m).run clock = ((none, b'), clock')) :
    (rounds Clock.tick b (m + n)).run clock = (rounds Clock.tick b' n).run clock' := by
  induction m generalizing b clock with
  | zero =>
    cases h
    rw [Nat.zero_add]
  | succ m ih =>
    rcases hRound : (round Clock.tick b).run clock with ⟨⟨halt, middle⟩, clock₁⟩
    rw [rounds, bind_of_run hRound] at h
    cases halt with
    | some halt => cases h
    | none =>
      rw [Nat.succ_add, rounds_succ_of_round (m + n) hRound]
      exact ih h

/-- The rounds stop at the first document that cannot be written, and no other is made behind it. -/
theorem rounds_of_wide {roots : List Node} {n k : Nat} (h : b.Ready step)
    (hMade : (repeatedly (document b.bounds) n).run b.draws = .ok roots draws)
    (hRoot : roots[k]? = some root) (hBefore : ∀ earlier ∈ roots.take k, Fits step earlier.height)
    (hWide : ¬Fits step root.height) (hLess : k < n) (clock : Clock) :
    ∃ b' clock',
      (rounds Clock.tick b n).run clock = ((some (.raised (wideFault step)), b'), clock') ∧
      (repeatedly (document b.bounds) (k + 1)).run b.draws =
        .ok (roots.take (k + 1)) b'.draws := by
  obtain ⟨b', clock₁, after, hRun, hReady, hNext, hTake⟩ := rounds_reach h hMade hRoot hBefore clock
  obtain ⟨pair, clock', hHalt⟩ := round_of_wide hReady hNext hWide clock₁
  obtain ⟨rest, rfl⟩ : ∃ rest, n = k + (rest + 1) := ⟨n - k - 1, by omega⟩
  refine ⟨⟨b'.bounds, after, pair⟩, clock', ?_, hTake⟩
  rw [rounds_add k (rest + 1) hRun, rounds, bind_of_run hHalt]
  rfl

/-- The times of the rounds are behind what a stopwatch has measured before. -/
structure Measured (clock : Clock) (n : Nat) (p q : Pair) : Prop where
  primary : q.primaryWatch.total = p.primaryWatch.total + clock.timesInRounds 0 n
  reference : q.referenceWatch.total = p.referenceWatch.total + clock.timesInRounds 2 n
  primaryCount : q.primaryWatch.count = p.primaryWatch.count + n
  referenceCount : q.referenceWatch.count = p.referenceWatch.count + n

/-- All rounds, where all documents can be written. -/
theorem rounds_of_fits {roots : List Node} {n : Nat} (h : b.Ready step)
    (hMade : (repeatedly (document b.bounds) n).run b.draws = .ok roots draws)
    (hFits : ∀ root ∈ roots, Fits step root.height) (clock : Clock) :
    ∃ pair clock',
      (rounds Clock.tick b n).run clock = ((none, ⟨b.bounds, draws, pair⟩), clock') ∧
      pair.profile = b.pair.profile ∧
      (b.pair.profile = none → Measured clock n b.pair pair) := by
  -- The first round takes the first four readings; those of the rest come four later.
  induction n generalizing b roots clock with
  | zero =>
    cases hMade
    have hZero (m : Int) : m = m + 0 := (Int.add_zero m).symm
    exact ⟨b.pair, clock, rfl, rfl, fun _ => ⟨hZero _, hZero _, hZero _, hZero _⟩⟩
  | succ n ih =>
    obtain ⟨first, rest, between, hFirst, hRest, rfl⟩ := exists_cons_of_repeatedly hMade
    obtain ⟨hFirstFits, hRestFits⟩ := List.forall_mem_cons.mp hFits
    obtain ⟨pair, clock₁, hRound, hReady, hProfile, hTimed⟩ :=
      round_of_fits h hFirst hFirstFits clock
    obtain ⟨last, clock', hRun, hKept, hMeasured⟩ :=
      ih (b := ⟨b.bounds, between, pair⟩) hReady hRest hRestFits clock₁
    refine ⟨last, clock', (rounds_succ_of_round n hRound).trans hRun, hKept.trans hProfile, ?_⟩
    intro hNone
    obtain ⟨rfl, hPrimary, hReference⟩ := hTimed hNone
    obtain ⟨hCached, hUncached, hCachedCount, hUncachedCount⟩ := hMeasured (hProfile.trans hNone)
    rw [hPrimary] at hCached hCachedCount
    rw [hReference] at hUncached hUncachedCount
    refine ⟨?_, ?_, ?_, ?_⟩
    · rw [hCached, Clock.timesInRounds_succ, ← Int.add_assoc]
      rfl
    · rw [hUncached, Clock.timesInRounds_succ, ← Int.add_assoc]
      rfl
    · rw [hCachedCount]
      simp only [Stopwatch.timed, Stopwatch.stopAt, Stopwatch.startAt]
      omega
    · rw [hUncachedCount]
      simp only [Stopwatch.timed, Stopwatch.stopAt, Stopwatch.startAt]
      omega

/-! ## The check -/

/-- A check that nothing keeps from its rounds ends as they do. -/
theorem run_of_rounds {settings : Settings} {around : Surroundings} {clock clock' : Clock}
    {result : Option Halt × Bench}
    (hProfile : settings.profile.bind (refusal? around.toFiles) = none)
    (hProblems : around.problems = 0) (hLoops : settings.loops ≠ 0)
    (hRounds : (rounds Clock.tick (.ofSettings settings around.draws) settings.loops.toNat).run
      clock = (result, clock')) :
    (run Clock.tick settings around).run clock = (conclude around.toFiles result, clock') := by
  unfold run
  rw [hProfile]
  dsimp only
  rw [if_neg (not_not_intro hProblems), if_neg hLoops, bind_of_run hRounds]
  rfl

/-- In this round of a check, this is the document that is made. -/
def Settings.MakesAt (settings : Settings) (around : Surroundings) (clock : Clock) (k : Nat)
    (root : Node) : Prop :=
  ∃ b clock' after,
    (rounds Clock.tick (.ofSettings settings around.draws) k).run clock = ((none, b), clock') ∧
      (document b.bounds).run b.draws = .ok root after

/-- What is left behind by a check that ends with a report on times. -/
def timesOutcome (existing : List String) (report : String × Option Error) (drawn : Nat) : Outcome :=
  match report with
  | (printed, none) => ⟨.exit 0, printed, "", sortedNames existing, drawn⟩
  | (printed, some cause) => ⟨.raised cause, printed, "", sortedNames existing, drawn⟩

theorem drawn_conclude (files : Files) (halt : Option Halt) (b : Bench) :
    (conclude files (halt, b)).drawn = b.draws.used := by
  unfold conclude
  rcases halt with _ | ⟨cause⟩ | what
  · dsimp only
    rcases b.pair.report (b.pair.profile.bind (makingFault? files)) with ⟨printed, _ | cause⟩
    · rfl
    · rfl
  · rfl
  · rfl

theorem conclude_of_measured {clock : Clock} {n : Nat} {files : Files}
    (hProfile : b.pair.profile = none) (h : Measured clock n (.ofStep step none) b.pair) :
    conclude files (none, b) = timesOutcome files.existing
      ((Pair.ofTimes n (clock.timesInRounds 0 n) (clock.timesInRounds 2 n)).report none)
      b.draws.used := by
  have hFresh (m : Int) : 0 + m = m := Int.zero_add m
  have hReport : b.pair.report none =
      (Pair.ofTimes n (clock.timesInRounds 0 n) (clock.timesInRounds 2 n)).report none := by
    apply Pair.report_congr
    · exact hProfile
    · exact Stopwatch.average_congr (h.primary.trans (hFresh _)) (h.primaryCount.trans (hFresh _))
    · exact Stopwatch.average_congr (h.reference.trans (hFresh _))
        (h.referenceCount.trans (hFresh _))
  unfold conclude timesOutcome
  dsimp only
  rw [hProfile, Option.bind_none, hReport]
  rcases Pair.report _ none with ⟨printed, _ | cause⟩
  · rfl
  · rfl

/-- The documents of a check are those of as many calls, one behind the other, that begin with its
numbers, whatever the step, the clock and the file for a profile, if there can be one. When all of
them can be written, no other numbers are drawn, and a report is on the times between the first two
readings of each round and on those between the last two. Otherwise the check stops behind the first
that cannot be written. -/
theorem run_measures (bounds : Bounds) (loops : Int) (around : Surroundings)
    (hDeepest : 0 ≤ bounds.deepest) (hWidest : 0 ≤ bounds.widest) (hLoops : 1 ≤ loops)
    (hProblems : around.problems = 0) :
    ∃ roots last, (repeatedly (document bounds) loops.toNat).run around.draws = .ok roots last ∧
      roots.length = loops.toNat ∧
      ∀ (profile : Option String) (step : Int) (clock : Clock),
        profile.bind (refusal? around.toFiles) = none →
        let settings : Settings := ⟨profile, loops, bounds.deepest, bounds.widest, step⟩
        let outcome := ((run Clock.tick settings around).run clock).1
        (∀ k root, roots[k]? = some root →
          (∀ earlier ∈ roots.take k, Fits step earlier.height) →
          settings.MakesAt around clock k root) ∧
        ((∀ root ∈ roots, Fits step root.height) → outcome.drawn = last.used ∧
          (profile = none → outcome = timesOutcome around.existing
            ((Pair.ofTimes loops.toNat (clock.timesInRounds 0 loops.toNat)
              (clock.timesInRounds 2 loops.toNat)).report none) last.used)) ∧
        ∀ k root, roots[k]? = some root →
          (∀ earlier ∈ roots.take k, Fits step earlier.height) → ¬Fits step root.height →
          ∃ after, (repeatedly (document bounds) (k + 1)).run around.draws =
              .ok (roots.take (k + 1)) after ∧
            outcome =
              ⟨.raised (wideFault step), "", "", sortedNames around.existing, after.used⟩ := by
  obtain ⟨roots, last, hMade, hLength, -⟩ :=
    (makes_repeatedly (makes_document hDeepest hWidest) loops.toNat).sound around.draws
  refine ⟨roots, last, hMade, hLength, ?_⟩
  intro profile step clock hProfile settings outcome
  have hReady : (Bench.ofSettings settings around.draws).Ready step :=
    ready_ofSettings settings around.draws
  have hOutcome {result : Option Halt × Bench} {clock' : Clock}
      (hRounds : (rounds Clock.tick (.ofSettings settings around.draws) loops.toNat).run clock =
        (result, clock')) : outcome = conclude around.toFiles result := by
    have hSome : loops ≠ 0 := by omega
    exact congrArg Prod.fst (run_of_rounds hProfile hProblems hSome hRounds)
  refine ⟨?_, ?_, ?_⟩
  · intro k root hRoot hBefore
    obtain ⟨b, clock', after, hRun, -, hNext, -⟩ := rounds_reach hReady hMade hRoot hBefore clock
    exact ⟨b, clock', after, hRun, hNext⟩
  · intro hFits
    obtain ⟨pair, clock', hRun, hKept, hMeasured⟩ := rounds_of_fits hReady hMade hFits clock
    rw [hOutcome hRun]
    refine ⟨drawn_conclude _ _ _, ?_⟩
    rintro rfl
    exact conclude_of_measured hKept (hMeasured rfl)
  · intro k root hRoot hBefore hWide
    have hLess : k < loops.toNat := by
      rw [← hLength]
      exact (List.getElem?_eq_some_iff.mp hRoot).1
    obtain ⟨b, clock', hRun, hTake⟩ :=
      rounds_of_wide hReady hMade hRoot hBefore hWide hLess clock
    exact ⟨b.draws, hTake, hOutcome hRun⟩

/-- The numbers for any documents that are to have one child each. -/
def pairDraws : Draws :=
  .cycle #[0, 0, 0, 1, 1, 0, 0, 0, 0, 0]

/-- The heights of the first of these documents, and how many numbers they take. -/
def pairSurvey (n : Nat) : List Nat × Nat :=
  match (repeatedly (document ⟨1, 1⟩) n).run pairDraws with
  | .ok roots after => (roots.map Node.height, after.used)
  | .error _ after => ([], after.used)

theorem pairSurvey_of_made {n : Nat} {roots : List Node} {after : Draws}
    (h : (repeatedly (document ⟨1, 1⟩) n).run pairDraws = .ok roots after) :
    pairSurvey n = (roots.map Node.height, after.used) := by
  rw [pairSurvey, h]

/-- What a check of two of them leaves behind. -/
def pairOutcome (readings : Array Int) (profile : Option String) (step : Int) : Outcome :=
  ((run Clock.tick ⟨profile, 2, 1, 1, step⟩ ⟨⟨[], []⟩, 0, pairDraws⟩).run (.cycle readings)).1

/-- With the least step that does not fit the machine, the first of two documents is the last. -/
theorem run_measures_pair :
    let outcome := pairOutcome #[5, 9, 20, 21]
    (outcome none 3).printed = "   Markup\n\t  cached = 4.0\n\tuncached = 1.0  (0.25)\n" ∧
      (outcome (some "stats") (-1)).drawn = 20 ∧
      (outcome none (largestLength + 1)).ending = .raised .widthTooLarge ∧
      (outcome none (largestLength + 1)).drawn = 10 := by
  obtain ⟨roots, last, hMade, hLength, hAll⟩ :=
    run_measures ⟨1, 1⟩ 2 ⟨⟨[], []⟩, 0, pairDraws⟩ (by decide) (by decide) (by decide) rfl
  have hSurvey : (roots.map Node.height, last.used) = ([1, 1], 20) :=
    (pairSurvey_of_made hMade).symm.trans (by decide +kernel)
  obtain ⟨hHeights, hUsed⟩ := Prod.mk.inj hSurvey
  have hFits (step : Int) (hStep : Fits step 1) : ∀ root ∈ roots, Fits step root.height := by
    refine fits_of_deepest ?_ ?_ ?_ hMade
    · decide
    · decide
    · exact hStep
  obtain ⟨-, hReport, -⟩ := hAll none 3 (.cycle #[5, 9, 20, 21]) rfl
  obtain ⟨-, hProfile, -⟩ := hAll (some "stats") (-1) (.cycle #[5, 9, 20, 21]) (by decide +kernel)
  obtain ⟨-, -, hStop⟩ := hAll none (largestLength + 1) (.cycle #[5, 9, 20, 21]) rfl
  obtain ⟨first, second, rfl⟩ := List.length_eq_two.mp hLength
  have hFirst : first.height = 1 := (List.cons.inj hHeights).1
  have hWide : ¬Fits (largestLength + 1) first.height := by
    rw [hFirst]
    decide
  obtain ⟨after, hOne, hStopped⟩ := hStop 0 first rfl (fun _ hNone => nomatch hNone) hWide
  have hOneSurvey : ([first.height], after.used) = ([1], 10) :=
    (pairSurvey_of_made hOne).symm.trans (by decide +kernel)
  refine ⟨?_, (hProfile (hFits (-1) (by decide))).1.trans hUsed, ?_, ?_⟩
  · have hOutcome := (hReport (hFits 3 (by decide))).2 rfl
    rw [hUsed] at hOutcome
    exact (congrArg Outcome.printed hOutcome).trans (by decide +kernel)
  · exact congrArg Outcome.ending hStopped
  · exact (congrArg Outcome.drawn hStopped).trans (Prod.mk.inj hOneSurvey).2

/-- Nothing is drawn where it cannot be told whether the file for the profile is there. -/
theorem drawn_of_tooLong {files : Files} {file : String}
    (hLong : leadsTo files file = .error .tooLong) (loops deepest widest step : Int)
    (problems : Int) (draws : Draws) (clock : Clock) :
    ((run Clock.tick ⟨some file, loops, deepest, widest, step⟩
      ⟨files, problems, draws⟩).run clock).1.drawn = draws.used := by
  have hRefusal : refusal? files file = some (.raised (.nameTooLong (tidyPath file)), "") := by
    rw [refusal?, hLong]
  simp only [run, Option.bind_some, hRefusal]
  rfl

/-- A name of more bytes than a name may have. -/
def longName : String :=
  String.ofList (List.replicate 64 '𝕟')

theorem leadsTo_longName : leadsTo ⟨[], []⟩ longName = .error .tooLong := by
  have hChars : longName.toList = List.replicate 64 '𝕟' := String.toList_ofList
  have hSize : longName.utf8ByteSize = 256 := by decide +kernel
  have hOther {name : String} (hShort : name.utf8ByteSize < 256) : longName ≠ name := by
    rintro rfl
    omega
  have hSimple : IsSimpleName longName :=
    ⟨by rw [hChars]; decide, by rw [hChars]; decide, hOther (by decide), hOther (by decide),
      hOther (by decide)⟩
  rw [hSimple.leadsTo, hSize]
  rfl

theorem drawn_pairOutcome_longName (readings : Array Int) (step : Int) :
    (pairOutcome readings (some longName) step).drawn = 0 := by
  rw [pairOutcome, drawn_of_tooLong leadsTo_longName]
  rfl

/-- Where an indent cannot be made there is no report, and not all the documents are; and where
nothing can have the name of the file for a profile, there is not even one. -/
theorem not_forall_run_measures :
    (¬∀ step, (pairOutcome #[] none step).printed = ((Pair.ofTimes 2
        ((Clock.cycle #[]).timesInRounds 0 2) ((Clock.cycle #[]).timesInRounds 2 2)).report none).1) ∧
      (¬∀ step, (pairOutcome #[] none step).drawn = (pairSurvey 2).2) ∧
      ¬∀ file, (∀ place, leadsTo ⟨[], []⟩ file ≠ .ok place) →
        (pairOutcome #[] (some file) 3).drawn = (pairSurvey 2).2 := by
  refine ⟨?_, ?_, ?_⟩
  · intro hReport
    exact absurd (hReport (largestLength + 1)) (by decide +kernel)
  · intro hSame
    exact absurd (hSame (largestLength + 1)) (by decide +kernel)
  · intro hSame
    have hNowhere (place : Place) : leadsTo ⟨[], []⟩ longName ≠ .ok place := by
      rw [leadsTo_longName]
      exact nofun
    have hTwo := hSame longName hNowhere
    rw [drawn_pairOutcome_longName] at hTwo
    exact absurd hTwo (by decide +kernel)

end Check

end XmlLayout

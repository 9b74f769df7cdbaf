import XmlLayout.Proofs.Check.Rounds

/-!
# What a check leaves behind

A check that is refused, or that follows tests with problems, does nothing but complain. Every other
one ends well or is stopped by an error, also in the middle of its rounds: the bounds of the documents
may be below zero, and indents may be too wide. It never fails, whatever the clock says. The files that
were there are still there, and there is one more exactly if a profile was asked for and the check has
come to its end.

* `round_keeps`: one round.
* `rounds_keep`: all of them.
* `effects_conclude`: what is left behind them.
* `run_effects`: the check.
-/

namespace XmlLayout.Check

open Document (Node)
open Sample Timing Writing

variable {step : Int} {b : Bench} {root : Node} {text : String}

/-! ## Rounds -/

/-- Both writers are in states that runs lead to. -/
structure Bench.Ready (step : Int) (b : Bench) : Prop where
  primary : b.pair.primary.Steady 16 step
  reference : b.pair.reference.Steady 16 step

theorem ready_ofSettings (settings : Settings) (draws : Draws) :
    (Bench.ofSettings settings draws).Ready settings.step := by
  have hSteady := Pair.steady_ofStep settings.step 0 (settings.profile.map tidyPath)
  exact ⟨hSteady.primary, hSteady.reference⟩

/-- What comes of a bench in a part of the check: it may be that an error has stopped it, but not that
something was found. -/
structure Keeps (step : Int) (b : Bench) (result : Option Halt × Bench) : Prop where
  ready : result.2.Ready step
  profile : result.2.pair.profile = b.pair.profile
  passes : ∀ what, result.1 ≠ some (.failed what)

/-- What is made and written is a sample document, so it is read back. -/
theorem differs_of_made {bounds : Bounds} {draws after : Draws}
    (hMade : (document bounds).run draws = .ok root after)
    (hText : encodeToText root step = .ok text) : differs root text = .ok false := by
  have hSample : IsSampleDocument ⟨root.height, max bounds.widest 0⟩ root :=
    ⟨Int.le_refl _, makesOnly_element bounds 0 draws root after hMade⟩
  obtain ⟨-, rfl⟩ := eq_render_of_encodeToText hText
  exact hSample.differs step

/-- The reference gives the same text, if it is asked. -/
theorem verify_keeps (h : b.Ready step) (hText : encodeToText root step = .ok text)
    (hSame : differs root text = .ok false) (clock : Clock) :
    Keeps step b ((verify Clock.tick b root text).run clock).1 := by
  obtain ⟨hReference, hSteady⟩ := Pair.textOf_of_steady h.reference root
  obtain ⟨writer, watch, clock', hRun, hWriter⟩ := b.pair.encodeReference_tick root clock
  have hAfter : writer.Steady 16 step := by
    rcases hWriter with rfl | rfl
    · exact h.reference
    · exact hSteady
  unfold verify
  rw [hSame]
  dsimp only
  rw [bind_of_run hRun, hReference, hText]
  refine ⟨⟨h.primary, hAfter⟩, rfl, ?_⟩
  intro what hFailed
  by_cases hProfiled : b.pair.profile.isSome = true
  · rw [if_pos hProfiled] at hFailed
    cases hFailed
  · rw [if_neg hProfiled] at hFailed
    dsimp only [Except.map] at hFailed
    rw [if_pos rfl] at hFailed
    cases hFailed

theorem round_keeps (h : b.Ready step) (clock : Clock) :
    Keeps step b ((round Clock.tick b).run clock).1 := by
  unfold round
  cases hMade : (document b.bounds).run b.draws with
  | error cause draws => exact ⟨⟨h.primary, h.reference⟩, rfl, fun what hHalt => by cases hHalt⟩
  | ok root draws =>
    obtain ⟨hPrimary, hSteady⟩ := Pair.textOf_of_steady h.primary root
    obtain ⟨watch, clock', hRun⟩ := b.pair.encode_tick root clock
    dsimp only
    rw [bind_of_run hRun, hPrimary]
    cases hText : encodeToText root step with
    | error cause => exact ⟨⟨hSteady, h.reference⟩, rfl, fun what hHalt => by cases hHalt⟩
    | ok text =>
      obtain ⟨hReady, hProfile, hPasses⟩ :=
        verify_keeps (b := ⟨b.bounds, draws, { b.pair with
          primary := (Pair.textOf b.pair.primary root).2
          primaryWatch := watch }⟩)
          ⟨hSteady, h.reference⟩ hText (differs_of_made hMade hText) clock'
      exact ⟨hReady, hProfile, hPasses⟩

/-- By induction on the number of rounds; one that halts is the last. -/
theorem rounds_keep (n : Nat) (h : b.Ready step) (clock : Clock) :
    Keeps step b ((rounds Clock.tick b n).run clock).1 := by
  induction n generalizing b clock with
  | zero => exact ⟨h, rfl, fun what hHalt => by cases hHalt⟩
  | succ n ih =>
    have hRound := round_keeps h clock
    rcases hResult : (round Clock.tick b).run clock with ⟨⟨halt, b'⟩, clock'⟩
    rw [hResult] at hRound
    cases halt with
    | none =>
      rw [rounds_succ_of_round n hResult]
      obtain ⟨hReady, hProfile, hPasses⟩ := ih hRound.ready clock'
      exact ⟨hReady, hProfile.trans hRound.profile, hPasses⟩
    | some halt =>
      rw [rounds, bind_of_run hResult]
      exact hRound

/-! ## The check -/

/-- What a check leaves behind that is not refused and begins without problems. -/
structure Effects (settings : Settings) (around : Surroundings) (outcome : Outcome) : Prop where
  ending : outcome.ending = .exit 0 ∨ ∃ cause, outcome.ending = .raised cause
  complaints : outcome.complaints = ""
  files : ∀ name, name ∈ outcome.files ↔ name ∈ around.existing.map tidyPath ∨
    settings.profile = some name ∧ settings.loops ≠ 0 ∧ ∀ cause, outcome.ending ≠ .raised cause
  idle : settings.loops = 0 →
    outcome.ending = .exit 0 ∧ outcome.printed = "" ∧ outcome.drawn = around.draws.used

section Files

variable {settings : Settings} {around : Surroundings} {outcome : Outcome}

/-- Without rounds there is no report. -/
theorem effects_of_idle (hLoops : settings.loops = 0) :
    Effects settings around ⟨.exit 0, "", "", sortedNames around.existing, around.draws.used⟩ where
  ending := Or.inl rfl
  complaints := rfl
  files name := by
    rw [mem_sortedNames]
    exact (or_iff_left fun hMade => hMade.2.1 hLoops).symm
  idle _ := ⟨rfl, rfl, rfl⟩

/-- Where an error stops a check, the files are as they were. -/
theorem effects_of_raised {cause : Error} (hEnding : outcome.ending = .raised cause)
    (hComplaints : outcome.complaints = "") (hFiles : outcome.files = sortedNames around.existing)
    (hLoops : settings.loops ≠ 0) : Effects settings around outcome where
  ending := Or.inr ⟨cause, hEnding⟩
  complaints := hComplaints
  files name := by
    rw [hFiles, mem_sortedNames]
    exact (or_iff_left fun hMade => hMade.2.2 cause hEnding).symm
  idle hNone := absurd hNone hLoops

/-- The file for the profile is made in the end, and no other one. -/
theorem effects_of_exit (hEnding : outcome.ending = .exit 0) (hComplaints : outcome.complaints = "")
    (hFiles : outcome.files = sortedNames (settings.profile.toList ++ around.existing))
    (hPlain : ∀ file ∈ settings.profile, IsPlainName file) (hLoops : settings.loops ≠ 0) :
    Effects settings around outcome where
  ending := Or.inl hEnding
  complaints := hComplaints
  files name := by
    have hNotRaised (cause : Error) : outcome.ending ≠ .raised cause := by
      rw [hEnding]
      exact Ending.noConfusion
    have hMade : name ∈ settings.profile.toList.map tidyPath ↔ settings.profile = some name := by
      cases hProfile : settings.profile with
      | none => simp
      | some file => simp [(hPlain file hProfile).tidyPath, eq_comm]
    rw [hFiles, mem_sortedNames, List.map_append, List.mem_append, hMade, or_comm]
    simp only [hLoops, hNotRaised, ne_eq, not_false_eq_true, implies_true, and_true]
  idle hNone := absurd hNone hLoops

theorem effects_conclude (hPlain : ∀ file ∈ settings.profile, IsPlainName file)
    (hLoops : settings.loops ≠ 0) {result : Option Halt × Bench}
    (h : Keeps step (.ofSettings settings around.draws) result) :
    Effects settings around (conclude around.toFiles result) := by
  obtain ⟨halt, b⟩ := result
  have hProfile : b.pair.profile = settings.profile := by
    have hTidy : settings.profile.map tidyPath = settings.profile := by
      cases hFile : settings.profile with
      | none => rfl
      | some file => rw [Option.map_some, (hPlain file hFile).tidyPath]
    exact h.profile.trans hTidy
  unfold conclude
  cases halt with
  | some halt =>
    cases halt with
    | raised cause => exact effects_of_raised rfl rfl rfl hLoops
    | failed what => exact absurd rfl (h.passes what)
  | none =>
    dsimp only
    rcases b.pair.report (b.pair.profile.bind (makingFault? around.toFiles)) with
      ⟨printed, _ | cause⟩
    · have hInside : b.pair.profile.filter isInside = settings.profile := by
        rw [hProfile]
        cases hFile : settings.profile with
        | none => rfl
        | some file => exact Option.filter_some_pos (hPlain file hFile).isInside
      refine effects_of_exit rfl rfl ?_ hPlain hLoops
      rw [hInside]
    · exact effects_of_raised rfl rfl rfl hLoops

end Files

/-- A check that is asked for a profile in a file that exists complains about that, whatever the tests
before it have found; otherwise one that follows tests with problems complains about these. Neither
does anything else. Every other one leaves the files as they were, but for the one with the profile. -/
theorem run_effects (settings : Settings) (around : Surroundings) (clock : Clock)
    (hPlain : ∀ file ∈ settings.profile, IsPlainName file) :
    let outcome := ((run Clock.tick settings around).run clock).1
    let files := around.existing.map tidyPath
    (∀ file ∈ settings.profile, file ∈ files →
      outcome = ⟨.exit 1, "", complaint ("won't overwrite: " ++ file),
        sortedNames around.existing, around.draws.used⟩) ∧
    ((∀ file ∈ settings.profile, file ∉ files) → around.problems ≠ 0 →
      outcome = ⟨.exit 1, "", complaint "unit tests", sortedNames around.existing,
        around.draws.used⟩) ∧
    ((∀ file ∈ settings.profile, file ∉ files) → around.problems = 0 →
      Effects settings around outcome) := by
  intro outcome files
  have hNew (hNone : ∀ file ∈ settings.profile, file ∉ files) :
      settings.profile.bind (refusal? around.toFiles) = none :=
    (profile_of_new fun file hFile => ⟨hPlain file hFile, hNone file hFile⟩).1
  refine ⟨?_, ?_, ?_⟩
  · intro file hFile hThere
    have hRefusal : settings.profile.bind (refusal? around.toFiles) =
        some (.exit 1, complaint ("won't overwrite: " ++ file)) := by
      have hLeads := (hPlain file hFile).leadsTo around.toFiles
      rw [if_pos hThere] at hLeads
      rw [Option.mem_def.mp hFile, Option.bind_some, refusal?, hLeads, (hPlain file hFile).tidyPath]
    simp only [outcome, run, hRefusal]
    rfl
  · intro hNone hProblems
    simp only [outcome, run, hNew hNone, if_pos hProblems]
    rfl
  · intro hNone hProblems
    simp only [outcome, run, hNew hNone, if_neg (not_not_intro hProblems)]
    by_cases hLoops : settings.loops = 0
    · rw [if_pos hLoops]
      exact effects_of_idle hLoops
    · rw [if_neg hLoops]
      have hStart := ready_ofSettings settings around.draws
      have hRounds := rounds_keep settings.loops.toNat hStart clock
      rcases hResult : (rounds Clock.tick (.ofSettings settings around.draws)
        settings.loops.toNat).run clock with ⟨result, clock'⟩
      rw [hResult] at hRounds
      rw [bind_of_run hResult]
      exact effects_conclude hPlain hLoops hRounds

/-- In the last of these runs the second document may have children, but not even none of them: so the
check stops in its second round, and there is no profile. -/
theorem run_effects_stopped :
    let settings : Settings := { profile := some "stats", loops := 2, deepest := 1, widest := -1 }
    let draws : Draws := .cycle #[0, 0, 0, 0, 0, 0, 0, 0, 1]
    let outcome (existing : List String) (problems : Int) : Outcome :=
      ((run Clock.tick settings ⟨⟨existing, []⟩, problems, draws⟩).run (.cycle #[9, 2])).1
    outcome ["stats"] 3 = ⟨.exit 1, "", "FAILED won't overwrite: stats\n", ["stats"], 0⟩ ∧
      outcome ["notes"] 3 = ⟨.exit 1, "", "FAILED unit tests\n", ["notes"], 0⟩ ∧
      (outcome ["notes"] 0).ending = .raised .emptyRange ∧ (outcome ["notes"] 0).drawn = 9 ∧
      "notes" ∈ (outcome ["notes"] 0).files ∧ "stats" ∉ (outcome ["notes"] 0).files := by
  intro settings draws outcome
  have hPlain : ∀ file ∈ settings.profile, IsPlainName file := by
    rintro file ⟨⟩
    exact ⟨by decide, by decide, by decide, by decide, by decide, by decide⟩
  have hNew : ∀ file ∈ settings.profile, file ∉ ["notes"].map tidyPath := by
    rintro file ⟨⟩
    decide
  have hRefused := (run_effects settings ⟨⟨["stats"], []⟩, 3, draws⟩ (.cycle #[9, 2]) hPlain).1
  have hProblems := (run_effects settings ⟨⟨["notes"], []⟩, 3, draws⟩ (.cycle #[9, 2]) hPlain).2.1
  have hEffects := (run_effects settings ⟨⟨["notes"], []⟩, 0, draws⟩ (.cycle #[9, 2]) hPlain).2.2
    hNew rfl
  have hEnding : (outcome ["notes"] 0).ending = .raised .emptyRange := by decide +kernel
  have hStats : sortedNames ["stats"] = ["stats"] := by decide +kernel
  have hNotes : sortedNames ["notes"] = ["notes"] := by decide +kernel
  refine ⟨?_, ?_, hEnding, by decide +kernel, ?_, ?_⟩
  · refine (hRefused "stats" rfl (by decide)).trans ?_
    rw [hStats]
    rfl
  · refine (hProblems hNew (by decide)).trans ?_
    rw [hNotes]
    rfl
  · exact (hEffects.files "notes").mpr (Or.inl (by decide))
  · intro hMade
    rcases (hEffects.files "stats").mp hMade with hThere | ⟨-, -, hNever⟩
    · exact hNew "stats" rfl hThere
    · exact hNever .emptyRange hEnding

end XmlLayout.Check

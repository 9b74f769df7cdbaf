import XmlLayout.Check.Run
import XmlLayout.Proofs.Check.FileName
import XmlLayout.Proofs.Content.RoundTrip
import XmlLayout.Proofs.Sample.Documents
import XmlLayout.Proofs.Timing.Pair

/-!
# The check goes well

Sample documents can be read back and hold nothing that reading changes, so no round halts the
check: what a round needs of its writers is that they are in states that runs lead to, and this is
what it leaves. So the check ends as it should, over any number of rounds.

* `IsSampleElement.readable`, `IsSampleElement.holdsXml`, `IsSampleElement.holdsNoReturn`: what
  sample documents have.
* `round_goes_on`: one round.
* `rounds_go_on`: all of them.
* `run_succeeds`: the check.
-/

namespace XmlLayout

open Decimal (Binary64)
open Document (Tag Node isFirst isLegalName)
open Reading Sample Timing Writing

/-! ## Sample documents -/

namespace Sample

theorem IsSampleName.isLegalName {name : String} (h : IsSampleName name) :
    isLegalName name = true := by
  obtain ⟨⟨hSome, -⟩, hChars, hFirst⟩ := h
  rw [← String.length_toList] at hSome
  unfold Document.isLegalName
  cases hName : name.toList with
  | nil =>
    rw [hName] at hSome
    exact absurd hSome (by decide)
  | cons c rest =>
    rw [hName] at hChars hFirst
    rw [Document.isLegalChars, (hFirst c rfl).1, Bool.true_and, List.all_eq_true]
    exact fun d hd => hChars d (List.mem_cons_of_mem c hd)

theorem IsSampleText.isXmlChar {longest : Nat} {text : String} (h : IsSampleText longest text) :
    ∀ c ∈ text.toList, IsXmlChar c := by
  intro c hc
  obtain ⟨hLow, hHigh⟩ := h.chars c hc
  unfold IsXmlChar
  omega

theorem IsSampleText.noReturn {longest : Nat} {text : String} (h : IsSampleText longest text) :
    '\r' ∉ text.toList := by
  intro hReturn
  have hLow := (h.chars '\r' hReturn).1
  exact absurd hLow (by decide)

namespace IsSampleElement

variable {widest : Int} {tag : Tag} {children : List Node}

/-- A reserved name would begin with a letter that names do not begin with. -/
theorem readable (h : IsSampleElement widest tag children) : Readable tag children where
  legal := by
    refine ⟨h.name.isLegalName, ?_⟩
    intro key hKey
    obtain ⟨entry, hEntry, rfl⟩ := List.mem_map.mp hKey
    exact (h.attributes.entries entry hEntry).1.isLegalName
  keys := by
    intro hKey
    obtain ⟨entry, hEntry, hName⟩ := List.mem_map.mp hKey
    obtain ⟨-, -, hFirst⟩ := (h.attributes.entries entry hEntry).1
    rw [hName] at hFirst
    exact (hFirst 'x' rfl).2.1 rfl
  text := by
    intro hChildren
    rw [h.alone hChildren, Option.getD_none]

theorem holdsXml (h : IsSampleElement widest tag children) : HoldsXml tag children where
  values entry hEntry := (h.attributes.entries entry hEntry).2.isXmlChar
  text := by
    intro _
    cases hText : tag.text with
    | none => exact fun c hc => absurd hc List.not_mem_nil
    | some text => exact (h.text text hText).isXmlChar

theorem holdsNoReturn (h : IsSampleElement widest tag children) : HoldsNoReturn tag children := by
  intro _
  cases hText : tag.text with
  | none => exact List.not_mem_nil
  | some text => exact (h.text text hText).noReturn

end IsSampleElement

/-- Reading a sample document back finds nothing different. -/
theorem IsSampleDocument.differs {bounds : Bounds} {root : Node} (h : IsSampleDocument bounds root)
    (step : Int) : differs root (render step 0 root) = .ok false := by
  have hReadable : root.Every Readable := h.2.mono fun _ _ hTag => hTag.readable
  have hXml : root.Every HoldsXml := h.2.mono fun _ _ hTag => hTag.holdsXml
  have hReturn : root.Every HoldsNoReturn := h.2.mono fun _ _ hTag => hTag.holdsNoReturn
  have hRead : read (render step 0 root) = .ok (readBack step 0 root) :=
    (read_render_eq_ok_iff hReadable _).mpr ⟨hXml, rfl⟩
  obtain ⟨content, hContent, hTree⟩ := Content.ofTree_readBack step 0 hReadable
  have hSame : content.same (Content.ofTree (readBack step 0 root)) = true := by
    rw [hTree]
    have hPure := hReadable.mono fun _ _ _ => trivial
    exact (Content.same_withLineFeeds hPure hContent).mpr hReturn
  rw [XmlLayout.differs, hContent, hRead]
  exact congrArg (fun same => Except.ok !same) hSame

theorem IsSampleDocument.encodeToText {bounds : Bounds} {root : Node} {step : Int}
    (h : IsSampleDocument bounds root) (hFits : Fits step root.height) :
    encodeToText root step = .ok (render step 0 root) :=
  encodeToText_of_fits (h.2.mono fun _ _ hTag => writable_of_readable hTag.readable) hFits

end Sample

/-! ## Rounds -/

namespace Check

/-- At this bench `root` is made next. Both writers give the same text of it, and what is read of the
text is not different. -/
structure Bench.Passes (b : Bench) (root : Node) : Prop where
  made : ∃ draws, (document b.bounds).run b.draws = .ok root draws
  alike : ∃ text, (Pair.textOf b.pair.primary root).1 = .ok text ∧
    (Pair.textOf b.pair.reference root).1 = .ok text ∧ differs root text = .ok false

variable {step : Int} {limit : Nat} {b : Bench} {clock : Clock} {root : Node} {text : String}
  {draws : Draws}

theorem passes_of_steady (h : b.pair.Steady step limit)
    (hMade : (document b.bounds).run b.draws = .ok root draws)
    (hText : encodeToText root step = .ok text) (hSame : differs root text = .ok false) :
    b.Passes root where
  made := ⟨draws, hMade⟩
  alike := by
    refine ⟨text, ?_, ?_, hSame⟩
    · rw [(Pair.textOf_of_steady h.primary root).1, hText]
    · rw [(Pair.textOf_of_steady h.reference root).1, hText]

/-- A round of which the document is written and read back does not halt the check, and leaves a pair
that is fit for another one. -/
theorem round_goes_on (h : b.pair.Steady step limit) (hClock : clock.Within limit)
    (hMade : (document b.bounds).run b.draws = .ok root draws)
    (hText : encodeToText root step = .ok text) (hSame : differs root text = .ok false) :
    ∃ pair clock',
      (round Clock.tick b).run clock =
        ((none, { b with draws := draws, pair := pair }), clock') ∧
      pair.Steady step limit ∧ pair.profile = b.pair.profile ∧ clock'.Within limit := by
  obtain ⟨first, clock₁, hFirst, hSteady, hProfile, hBetween⟩ := h.encode hClock root
  obtain ⟨second, clock₂, hSecond, hLast, hKept, hAfter⟩ :=
    hSteady.encodeReference hBetween root
  refine ⟨second, clock₂, ?_, hLast, hKept.trans hProfile, hAfter⟩
  unfold round
  rw [hMade]
  dsimp only
  rw [bind_of_run hFirst, hText]
  dsimp only
  unfold verify
  rw [hSame]
  dsimp only
  rw [bind_of_run hSecond, hText]
  by_cases hProfiled : first.profile.isSome = true
  · rw [if_pos hProfiled]
    rfl
  · rw [if_neg hProfiled]
    dsimp only [Except.map]
    rw [if_pos rfl]
    rfl

theorem rounds_succ_of_round {b' : Bench} {clock' : Clock} (n : Nat)
    (h : (round Clock.tick b).run clock = ((none, b'), clock')) :
    (rounds Clock.tick b (n + 1)).run clock = (rounds Clock.tick b' n).run clock' := by
  rw [rounds, bind_of_run h]

theorem rounds_go_on (n : Nat) {roots : List Node} (h : b.pair.Steady step limit)
    (hClock : clock.Within limit)
    (hMade : (repeatedly (document b.bounds) n).run b.draws = .ok roots draws)
    (hRoots : ∀ root ∈ roots, ∃ text, encodeToText root step = .ok text ∧
      differs root text = .ok false) :
    (∃ b' clock', (rounds Clock.tick b n).run clock = ((none, b'), clock') ∧
        b'.pair.Steady step limit ∧ b'.pair.profile = b.pair.profile) ∧
      ∀ k root, roots[k]? = some root → ∃ b' clock',
        (rounds Clock.tick b k).run clock = ((none, b'), clock') ∧ b'.Passes root := by
  -- Each round leaves another bench. What is kept is that its writers are as runs leave them, that
  -- its times are short, and that the numbers go on where the last document has ended.
  induction n generalizing b clock roots with
  | zero =>
    cases hMade
    refine ⟨⟨b, clock, rfl, h, rfl⟩, ?_⟩
    intro k root hRoot
    cases hRoot
  | succ n ih =>
    obtain ⟨first, rest, draws₁, hFirst, hRest, rfl⟩ := exists_cons_of_repeatedly hMade
    obtain ⟨⟨text, hText, hSame⟩, hOthers⟩ := List.forall_mem_cons.mp hRoots
    obtain ⟨pair, clock₁, hRound, hSteady, hProfile, hAfter⟩ :=
      round_goes_on h hClock hFirst hText hSame
    obtain ⟨⟨b', clock', hRun, hLast, hKept⟩, hPasses⟩ :=
      ih (b := ⟨b.bounds, draws₁, pair⟩) hSteady hAfter hRest hOthers
    refine ⟨⟨b', clock', (rounds_succ_of_round n hRound).trans hRun, hLast, hKept.trans hProfile⟩,
      ?_⟩
    intro k root hRoot
    cases k with
    | zero =>
      cases hRoot
      exact ⟨b, clock, rfl, passes_of_steady h hFirst hText hSame⟩
    | succ k =>
      obtain ⟨bench, clock₂, hThere, hPass⟩ := hPasses k root hRoot
      exact ⟨bench, clock₂, (rounds_succ_of_round k hRound).trans hThere, hPass⟩

/-! ## The check -/

theorem conclude_of_steady {files : Files} (h : b.pair.Steady step limit)
    (hLimit : limit ≤ Binary64.halfRange) (hProfile : b.pair.profile.bind (makingFault? files) = none) :
    (conclude files (none, b)).ending = .exit 0 ∧
      (conclude files (none, b)).complaints = "" := by
  have hReport := h.report hLimit
  unfold conclude
  dsimp only
  rw [hProfile]
  generalize b.pair.report none = report at hReport ⊢
  obtain ⟨printed, fault⟩ := report
  cases hReport
  exact ⟨rfl, rfl⟩

theorem profile_of_new {profile : Option String} {files : Files}
    (h : ∀ file ∈ profile, IsPlainName file ∧ file ∉ files.existing.map tidyPath) :
    profile.bind (refusal? files) = none ∧
      (profile.map tidyPath).bind (makingFault? files) = none := by
  cases profile with
  | none => exact ⟨rfl, rfl⟩
  | some file =>
    obtain ⟨hPlain, hNew⟩ := h file rfl
    have hLeads : leadsTo files file = .error .noFile := by
      rw [hPlain.leadsTo, if_neg hNew]
    simp only [Option.map_some, Option.bind_some, hPlain.tidyPath, refusal?, makingFault?, hLeads,
      and_self]

/-- The indents of the documents can be made if those of the greatest depth can. -/
theorem fits_of_deepest {bounds : Bounds} {n : Nat} {start : Draws} {roots : List Node}
    (hDeepest : 0 ≤ bounds.deepest) (hWidest : 0 ≤ bounds.widest)
    (hFits : Fits step bounds.deepest.toNat)
    (hMade : (repeatedly (document bounds) n).run start = .ok roots draws) :
    ∀ root ∈ roots, Fits step root.height := by
  intro root hRoot
  obtain ⟨made, after, hRun, -, hAll⟩ :=
    (makes_repeatedly (makes_document hDeepest hWidest) n).sound start
  cases hRun.symm.trans hMade
  have hHeight := (hAll root hRoot).1
  exact hFits.mono (by omega)

/-- The check never fails. Where the tests before it have found no problem, the file for a profile is
new, the readings of the clock lie close together and the indents of the documents can be made, it
ends well and without complaint: in each of its rounds the document is written by both writers
alike, and reading it back finds nothing different. -/
theorem run_succeeds (settings : Settings) (around : Surroundings) (clock : Clock)
    (hDeepest : 0 ≤ settings.deepest) (hWidest : 0 ≤ settings.widest)
    (hProblems : around.problems = 0)
    (hProfile : ∀ file ∈ settings.profile,
      IsPlainName file ∧ file ∉ around.existing.map tidyPath)
    (hClock : clock.Within Binary64.halfRange)
    (hFits : ∀ roots draws,
      (repeatedly (document ⟨settings.deepest, settings.widest⟩) settings.loops.toNat).run
        around.draws = .ok roots draws → ∀ root ∈ roots, Fits settings.step root.height) :
    (∃ outcome clock', (run Clock.tick settings around).run clock = (outcome, clock') ∧
        outcome.ending = .exit 0 ∧ outcome.complaints = "") ∧
      ∃ roots draws,
        (repeatedly (document ⟨settings.deepest, settings.widest⟩) settings.loops.toNat).run
          around.draws = .ok roots draws ∧ roots.length = settings.loops.toNat ∧
        ∀ k root, roots[k]? = some root → ∃ b clock',
          (rounds Clock.tick (.ofSettings settings around.draws) k).run clock =
            ((none, b), clock') ∧ b.Passes root := by
  have hMakes : Makes (document ⟨settings.deepest, settings.widest⟩)
      (IsSampleDocument ⟨settings.deepest, settings.widest⟩) := makes_document hDeepest hWidest
  obtain ⟨roots, draws, hMade, hLength, hRoots⟩ :=
    (makes_repeatedly hMakes settings.loops.toNat).sound around.draws
  have hAll : ∀ root ∈ roots, ∃ text, encodeToText root settings.step = .ok text ∧
      differs root text = .ok false := by
    intro root hRoot
    exact ⟨_, (hRoots root hRoot).encodeToText (hFits roots draws hMade root hRoot),
      (hRoots root hRoot).differs settings.step⟩
  have hStart : (Bench.ofSettings settings around.draws).pair.Steady settings.step Binary64.halfRange :=
    Pair.steady_ofStep settings.step _ _
  obtain ⟨⟨b, clock', hRun, hSteady, hKept⟩, hPasses⟩ :=
    rounds_go_on settings.loops.toNat hStart hClock hMade hAll
  obtain ⟨hBegins, hEnds⟩ := profile_of_new hProfile
  refine ⟨?_, roots, draws, hMade, hLength, hPasses⟩
  unfold run
  rw [hBegins]
  dsimp only
  rw [if_neg (not_not_intro hProblems)]
  -- Without rounds there is no report.
  split
  · exact ⟨_, _, rfl, rfl, rfl⟩
  · rw [bind_of_run hRun]
    refine ⟨_, _, rfl, ?_⟩
    apply conclude_of_steady hSteady (Nat.le_refl _)
    rw [hKept]
    exact hEnds

/-- A clock that goes back and forth. -/
theorem within_cycle : (Clock.cycle #[9, 2]).Within Binary64.halfRange := by
  have hReading (i : Nat) : (Clock.cycle #[9, 2]).reading i = 9 ∨
      (Clock.cycle #[9, 2]).reading i = 2 := by
    rcases Nat.mod_two_eq_zero_or_one i with hEven | hOdd
    · exact Or.inl (by simp [Clock.cycle, hEven])
    · exact Or.inr (by simp [Clock.cycle, hOdd])
  have hLimit : 9 < Binary64.halfRange := by decide +kernel
  intro i j
  have hFirst := hReading i
  have hSecond := hReading j
  omega

/-- The step is the widest at which the documents can be written. -/
theorem run_succeeds_wide :
    let settings : Settings :=
      { profile := some "stats", loops := 3, deepest := 1, widest := 2, step := memoryLimit }
    let around : Surroundings := ⟨⟨["notes", "./stats.old"], []⟩, 0, .cycle #[40, -7, 1, 0, 3]⟩
    (∃ outcome clock', (run Clock.tick settings around).run (.cycle #[9, 2]) = (outcome, clock') ∧
        outcome.ending = .exit 0 ∧ outcome.complaints = "") ∧
      ∃ root b clock', (rounds Clock.tick (.ofSettings settings around.draws) 2).run
        (.cycle #[9, 2]) = ((none, b), clock') ∧ b.Passes root := by
  intro settings around
  have hProfile : ∀ file ∈ settings.profile,
      IsPlainName file ∧ file ∉ around.existing.map tidyPath := by
    rintro file ⟨⟩
    exact ⟨⟨by decide, by decide, by decide, by decide, by decide, by decide⟩, by decide⟩
  obtain ⟨hRun, roots, draws, -, hLength, hPasses⟩ :=
    run_succeeds settings around (.cycle #[9, 2]) (by decide) (by decide) rfl hProfile within_cycle
      fun roots draws => fits_of_deepest (by decide) (by decide) (by decide)
  have hLast : 2 < roots.length := by
    rw [hLength]
    decide
  exact ⟨hRun, roots[2], hPasses 2 roots[2] (List.getElem?_eq_getElem hLast)⟩

end Check

end XmlLayout

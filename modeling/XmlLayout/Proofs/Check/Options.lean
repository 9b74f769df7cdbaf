import XmlLayout.Proofs.Check.Bounds
import XmlLayout.Proofs.Check.Words

/-!
# What the options say

A command line of options is a list of them with their values. Of each option the last value counts:
it has to be a decimal integer that is not too small, or to name no file and no directory. Where
that is so for every option that is given, the check is done with these values; where it is not,
nothing is done. What was said before does not matter, nor how the options are mixed. All this holds
for every lawful reader of command lines.

The least numbers that the options may have leave no bound below zero. So there is always something
to choose from (`run_ending_ne`).

* `respond_of_given`: the call is with the values that are given.
* `Misgiven.exists_refuses`: what is refused.
* `answer_ending_ne`: no choice is among nothing.
* `answer_wordsOf`: what comes of a command line.
-/

namespace XmlLayout.Check

open Requirement (acceptInteger? acceptPath?)
open Sample Text Timing

/-! ## What the options stand for -/

variable {reader : Reader} {around : Surroundings} {pairs others : List (OptionName × String)}
  {name : OptionName}

/-- The number that an option stands for: the standard one if it is not given, and otherwise the last
one, a decimal integer of not too many digits that is not below the least. -/
def Stands (pairs : List (OptionName × String)) (name : OptionName) (least : Option Int)
    (standard n : Int) : Prop :=
  match lastOf pairs name with
  | none => n = standard
  | some value => IsDecimal value n ∧ (digitsOf value).length ≤ digitLimit ∧
      ∀ bound ∈ least, bound ≤ n

/-- The settings that options stand for whose last values are as they should be. -/
structure Given (files : Files) (pairs : List (OptionName × String)) (settings : Settings) :
    Prop where
  loops : Stands pairs .loops (some 0) 250 settings.loops
  deepest : Stands pairs .deepest (some 0) 8 settings.deepest
  widest : Stands pairs .widest (some 0) 6 settings.widest
  step : Stands pairs .step none 3 settings.step
  profile : settings.profile = lastOf pairs .profile
  profileNew : ∀ file ∈ settings.profile, IsSimpleName file ∧ file ∉ files.existing.map tidyPath

/-- The last value of some option is no integer, or too small, or names what is there. An integer is
what the reader takes for one; there are texts that are none for any reader, and decimal integers are
what they are. -/
inductive Misgiven (reader : Reader) (files : Files) (pairs : List (OptionName × String)) : Prop
  | unread {name : OptionName} {value : String} (hName : name ≠ .profile)
      (hLast : lastOf pairs name = some value) (h : reader.integer? value = none)
  | noInteger {name : OptionName} {value : String} (hName : name ≠ .profile)
      (hLast : lastOf pairs name = some value) (h : IsNoInteger value)
  | tooSmall {name : OptionName} {value : String} {n : Int}
      (hName : name = .loops ∨ name = .deepest ∨ name = .widest)
      (hLast : lastOf pairs name = some value) (hRead : reader.integer? value = some n) (h : n < 0)
  | negative {name : OptionName} {value : String} {n : Int}
      (hName : name = .loops ∨ name = .deepest ∨ name = .widest)
      (hLast : lastOf pairs name = some value) (hDecimal : IsDecimal value n) (h : n < 0)
  | taken {file : String} {place : Place} (hLast : lastOf pairs .profile = some file)
      (hPlace : leadsTo files file = .ok place) (h : place ≠ .device)

theorem isAtLeast_iff {least : Option Int} {n : Int} :
    isAtLeast least n = true ↔ ∀ bound ∈ least, bound ≤ n := by
  cases least with
  | none => simp [isAtLeast]
  | some bound => simp [isAtLeast]

theorem ofValues_eq {values : ∀ name, Option (required name).Value} {settings : Settings}
    (hProfile : values .profile = settings.profile)
    (hLoops : (values .loops).getD (250 : Int) = settings.loops)
    (hDeepest : (values .deepest).getD (8 : Int) = settings.deepest)
    (hWidest : (values .widest).getD (6 : Int) = settings.widest)
    (hStep : (values .step).getD (3 : Int) = settings.step) : Settings.ofValues values = settings := by
  cases settings
  cases hProfile
  cases hLoops
  cases hDeepest
  cases hWidest
  cases hStep
  rfl

/-! ### Values that are accepted -/

theorem Stands.accepted {least : Option Int} {standard n : Int} (hReader : reader.Lawful)
    (h : Stands pairs name least standard n) :
    (∀ value ∈ lastOf pairs name, acceptInteger? reader.integer? least value = some n) ∧
      ((lastOf pairs name).bind (acceptInteger? reader.integer? least)).getD standard = n := by
  unfold Stands at h
  split at h
  · rename_i hLast
    rw [hLast, h]
    exact ⟨nofun, rfl⟩
  · rename_i value hLast
    obtain ⟨hDecimal, hLength, hLeast⟩ := h
    have hAccept : acceptInteger? reader.integer? least value = some n := by
      rw [acceptInteger?, hReader.integer?_of_isDecimal hDecimal hLength,
        Option.filter_some_pos (isAtLeast_iff.mpr hLeast)]
    rw [hLast, Option.bind_some, hAccept]
    refine ⟨?_, rfl⟩
    rintro other ⟨⟩
    exact hAccept

/-- A name that nothing has is accepted, also if it is too long for any file. -/
theorem acceptPath?_of_new {files : Files} {file : String} (h : IsSimpleName file)
    (hNew : file ∉ files.existing.map tidyPath) :
    acceptPath? (leadsTo files) false false file = some file := by
  have hLeads := h.leadsTo files
  rw [if_neg hNew] at hLeads
  unfold acceptPath?
  split at hLeads
  · rw [hLeads]
  · split at hLeads
    · rw [hLeads]
    · rw [hLeads]

theorem Given.profile_accepted {files : Files} {settings : Settings} (h : Given files pairs settings) :
    (∀ file ∈ lastOf pairs .profile, acceptPath? (leadsTo files) false false file = some file) ∧
      (lastOf pairs .profile).bind (acceptPath? (leadsTo files) false false) = settings.profile := by
  have hAccept (file : String) (hLast : lastOf pairs .profile = some file) :
      acceptPath? (leadsTo files) false false file = some file := by
    obtain ⟨hSimple, hNew⟩ := h.profileNew file (h.profile.trans hLast)
    exact acceptPath?_of_new hSimple hNew
  refine ⟨hAccept, ?_⟩
  rw [h.profile]
  cases hLast : lastOf pairs .profile with
  | none => rfl
  | some file => exact hAccept file hLast

/-- The call is with the values that are given. -/
theorem respond_of_given {files : Files} {settings : Settings} (hReader : reader.Lawful)
    (h : Given files pairs settings) :
    ∃ values, reader.respond required (leadsTo files) (wordsOf pairs) = .call values ∧
      Settings.ofValues values = settings := by
  obtain ⟨hProfile, hProfileValue⟩ := h.profile_accepted
  obtain ⟨hLoops, hLoopsValue⟩ := h.loops.accepted hReader
  obtain ⟨hDeepest, hDeepestValue⟩ := h.deepest.accepted hReader
  obtain ⟨hWidest, hWidestValue⟩ := h.widest.accepted hReader
  obtain ⟨hStep, hStepValue⟩ := h.step.accepted hReader
  refine ⟨_, hReader.respond_of_accepted required (leadsTo files) pairs ?_, ?_⟩
  · intro name value hLast
    rw [Option.isSome_iff_exists]
    cases name with
    | profile => exact ⟨_, hProfile value hLast⟩
    | loops => exact ⟨_, hLoops value hLast⟩
    | deepest => exact ⟨_, hDeepest value hLast⟩
    | widest => exact ⟨_, hWidest value hLast⟩
    | step => exact ⟨_, hStep value hLast⟩
  · exact ofValues_eq hProfileValue hLoopsValue hDeepestValue hWidestValue hStepValue

/-! ### Values that are refused -/

variable {integer? : String → Option Int} {look : String → Except Gap Place} {text : String}

theorem isSome_integer_or_refuses (integer? : String → Option Int) (least : Option Int) :
    ((Requirement.integer least).accept? integer? look text).isSome = true ∨
      (Requirement.integer least).Refuses integer? look text := by
  cases hAccept : acceptInteger? integer? least text with
  | none => exact Or.inr (.integer hAccept)
  | some n => exact Or.inl (congrArg Option.isSome hAccept)

theorem isSome_path_or_refuses {fileAllowed directoryAllowed : Bool}
    (hNull : look text ≠ .error .null) :
    ((Requirement.path fileAllowed directoryAllowed).accept? integer? look text).isSome = true ∨
      (Requirement.path fileAllowed directoryAllowed).Refuses integer? look text := by
  have hPath : acceptPath? look fileAllowed directoryAllowed text = some text ∨
      ∃ place, look text = .ok place ∧ place.isAllowed fileAllowed directoryAllowed = false := by
    unfold acceptPath?
    split
    · rename_i place hPlace
      split
      · exact Or.inl rfl
      · rename_i hTaken
        exact Or.inr ⟨place, hPlace, Bool.eq_false_iff.mpr hTaken⟩
    · exact absurd ‹_› hNull
    · exact Or.inl rfl
  rcases hPath with hAccept | ⟨place, hPlace, hTaken⟩
  · exact Or.inl (congrArg Option.isSome hAccept)
  · exact Or.inr (.taken hPlace hTaken)

/-- A value is accepted or refused, unless there is a null character in a path. -/
theorem isSome_accept?_or_refuses (integer? : String → Option Int) {files : Files}
    (name : OptionName) (hNull : name = .profile → '\x00' ∉ text.toList) :
    ((required name).accept? integer? (leadsTo files) text).isSome = true ∨
      (required name).Refuses integer? (leadsTo files) text := by
  cases name with
  | profile => exact isSome_path_or_refuses fun hGap => hNull rfl (mem_of_leadsTo hGap)
  | loops => exact isSome_integer_or_refuses integer? _
  | deepest => exact isSome_integer_or_refuses integer? _
  | widest => exact isSome_integer_or_refuses integer? _
  | step => exact isSome_integer_or_refuses integer? _

theorem refuses_of_unread (hName : name ≠ .profile) (h : integer? text = none) :
    (required name).Refuses integer? look text := by
  have hNone (least : Option Int) : acceptInteger? integer? least text = none := by
    rw [acceptInteger?, h, Option.filter_none]
  cases name with
  | profile => exact absurd rfl hName
  | loops => exact .integer (hNone _)
  | deepest => exact .integer (hNone _)
  | widest => exact .integer (hNone _)
  | step => exact .integer (hNone _)

theorem refuses_of_below (hName : name = .loops ∨ name = .deepest ∨ name = .widest)
    (h : ∀ n, integer? text = some n → n < 0) : (required name).Refuses integer? look text := by
  have hNone : acceptInteger? integer? (some 0) text = none := by
    rw [acceptInteger?, Option.filter_eq_none_iff]
    intro n hRead hLeast
    exact Int.not_le.mpr (h n hRead) (isAtLeast_iff.mp hLeast 0 rfl)
  rcases hName with rfl | rfl | rfl
  · exact .integer hNone
  · exact .integer hNone
  · exact .integer hNone

theorem Place.isAllowed_of_ne {place : Place} (h : place ≠ .device) :
    place.isAllowed false false = false := by
  cases place with
  | device => exact absurd rfl h
  | here => rfl
  | above => rfl
  | rooted parts => rfl
  | file => rfl

theorem Misgiven.exists_refuses {files : Files} (hReader : reader.Lawful)
    (h : Misgiven reader files pairs) :
    ∃ name text, lastOf pairs name = some text ∧
      (required name).Refuses reader.integer? (leadsTo files) text := by
  cases h with
  | unread hName hLast hNone => exact ⟨_, _, hLast, refuses_of_unread hName hNone⟩
  | noInteger hName hLast hNever =>
    exact ⟨_, _, hLast, refuses_of_unread hName (hReader.integer?_of_isNoInteger hNever)⟩
  | @tooSmall name value n hName hLast hRead hBelow =>
    refine ⟨_, _, hLast, refuses_of_below hName ?_⟩
    intro m hOther
    rw [hRead] at hOther
    cases hOther
    exact hBelow
  | negative hName hLast hDecimal hBelow =>
    refine ⟨_, _, hLast, refuses_of_below hName ?_⟩
    intro m hRead
    rw [hReader.eq_of_isDecimal hDecimal hRead]
    exact hBelow
  | taken hLast hPlace hOther =>
    exact ⟨.profile, _, hLast, .taken hPlace (Place.isAllowed_of_ne hOther)⟩

/-! ## Command lines -/

/-- Words are an error of usage: nothing is drawn or made. -/
def Misused (reader : Reader) (around : Surroundings) (words : List String) : Prop :=
  ∃ complaint, ∀ {m : Type → Type} [Monad m] (tick : m Int),
    answer reader tick around words =
      return ⟨.exit usageCode, "", complaint, sortedNames around.existing, around.draws.used⟩

theorem answer_of_call {words : List String} {values : ∀ name, Option (required name).Value}
    (h : reader.respond required (leadsTo around.toFiles) words = .call values)
    {m : Type → Type} [Monad m] (tick : m Int) :
    answer reader tick around words = run tick (.ofValues values) around := by
  rw [answer, h]

theorem misused_of_exit {words : List String} {complaint : String}
    (h : reader.respond required (leadsTo around.toFiles) words =
      .exit usageCode "" complaint) : Misused reader around words := by
  refine ⟨complaint, ?_⟩
  intro m _ tick
  rw [answer, h]

theorem misused_of_refuses (hReader : reader.Lawful) {text : String}
    (hLast : lastOf pairs name = some text)
    (h : (required name).Refuses reader.integer? (leadsTo around.toFiles) text) :
    Misused reader around (wordsOf pairs) := by
  obtain ⟨complaint, hExit⟩ := hReader.respond_of_refused required _ pairs hLast h
  exact misused_of_exit hExit

/-- Only the values of each option among themselves have an order that matters. -/
theorem answer_congr (hReader : reader.Lawful)
    (hSame : ∀ name, valuesOf others name = valuesOf pairs name)
    (hNull : ∀ file ∈ lastOf pairs .profile, '\x00' ∉ file.toList) :
    (∀ {m : Type → Type} [Monad m] (tick : m Int),
      answer reader tick around (wordsOf others) = answer reader tick around (wordsOf pairs)) ∨
    Misused reader around (wordsOf others) ∧ Misused reader around (wordsOf pairs) := by
  have hLast (name : OptionName) : lastOf others name = lastOf pairs name := by
    rw [lastOf, hSame, lastOf]
  by_cases hAccepted : ∀ name, ∀ text ∈ lastOf pairs name,
      ((required name).accept? reader.integer? (leadsTo around.toFiles) text).isSome = true
  · left
    intro m _ tick
    have hOthers := hReader.respond_of_accepted required (leadsTo around.toFiles) others
      fun name text hText => hAccepted name text (hLast name ▸ hText)
    rw [answer_of_call hOthers, answer_of_call (hReader.respond_of_accepted _ _ _ hAccepted)]
    simp only [hLast]
  · right
    push Not at hAccepted
    obtain ⟨name, text, hText, hNone⟩ := hAccepted
    have hProfile : name = .profile → '\x00' ∉ text.toList := by
      rintro rfl
      exact hNull text hText
    have hRefuses : (required name).Refuses reader.integer? (leadsTo around.toFiles) text :=
      (isSome_accept?_or_refuses reader.integer? name hProfile).resolve_left hNone
    exact ⟨misused_of_refuses hReader ((hLast name).trans hText) hRefuses,
      misused_of_refuses hReader hText hRefuses⟩

/-- The bounds of a call are not below zero, whatever the words are. -/
theorem nonneg_of_call (hReader : reader.Lawful) {look : String → Except Gap Place}
    {words : List String} {values : ∀ name, Option (required name).Value}
    (h : reader.respond required look words = .call values) :
    0 ≤ (Settings.ofValues values).deepest ∧ 0 ≤ (Settings.ofValues values).widest := by
  have hNonneg {value : Option Int} {standard : Int} (hStandard : 0 ≤ standard)
      (hMeets : ∀ n ∈ value, isAtLeast (some 0) n = true) : 0 ≤ value.getD standard := by
    cases value with
    | none => exact hStandard
    | some n => exact isAtLeast_iff.mp (hMeets n rfl) 0 rfl
  have hMeets := hReader.meets_of_call h
  exact ⟨hNonneg (by decide) (hMeets .deepest), hNonneg (by decide) (hMeets .widest)⟩

theorem answer_ending_ne (hReader : reader.Lawful) (around : Surroundings) (words : List String)
    (clock : Clock) :
    ((answer reader Clock.tick around words).run clock).1.ending ≠ .raised .emptyRange := by
  unfold answer
  split
  · rename_i values hCall
    obtain ⟨hDeepest, hWidest⟩ := nonneg_of_call hReader hCall
    exact run_ending_ne hDeepest hWidest around clock
  · exact nofun

/-- What a command line of options comes to, with any lawful reader. Where the last values are as they
should be, the check is done with these, whatever stands before them. Nothing changes when the options
are mixed in another way, the values of each in their order, only the complaint may be another; in the
words of a command line there are no null characters. Where a last value is no integer, or too small,
or names a file or a directory that is there, this is an error of usage. And no command line at all
leads to a choice among nothing. -/
theorem answer_wordsOf (hReader : reader.Lawful) (around : Surroundings) :
    (∀ pairs settings, Given around.toFiles pairs settings →
      ∀ {m : Type → Type} [Monad m] (tick : m Int),
        answer reader tick around (wordsOf pairs) = run tick settings around) ∧
    (∀ pairs others, (∀ name, valuesOf others name = valuesOf pairs name) →
      (∀ file ∈ lastOf pairs .profile, '\x00' ∉ file.toList) →
      (∀ {m : Type → Type} [Monad m] (tick : m Int),
        answer reader tick around (wordsOf others) = answer reader tick around (wordsOf pairs)) ∨
      Misused reader around (wordsOf others) ∧ Misused reader around (wordsOf pairs)) ∧
    (∀ pairs, Misgiven reader around.toFiles pairs → Misused reader around (wordsOf pairs)) ∧
    ∀ words clock, ((answer reader Clock.tick around words).run clock).1.ending ≠
      .raised .emptyRange := by
  refine ⟨?_, ?_, ?_, answer_ending_ne hReader around⟩
  · intro pairs settings hGiven m _ tick
    obtain ⟨values, hCall, rfl⟩ := respond_of_given hReader hGiven
    exact answer_of_call hCall tick
  · intro pairs others hSame hNull
    exact answer_congr hReader hSame hNull
  · intro pairs hMisgiven
    obtain ⟨name, text, hLast, hRefuses⟩ := hMisgiven.exists_refuses hReader
    exact misused_of_refuses hReader hLast hRefuses

/-- The first value for the number of documents is no number, and the last one is zero. The step is
minus seven. -/
def mixedPairs : List (OptionName × String) :=
  [(.loops, "many"), (.step, "-007"), (.loops, "0"), (.profile, "stats")]

theorem isDecimal_zero : IsDecimal "0" 0 := by
  have hDigits : ∀ c ∈ ['0'], c.isDigit = true := by
    rw [List.forall_mem_singleton]
    rfl
  exact .bare (List.cons_ne_nil _ _) hDigits

theorem isDecimal_minusSeven : IsDecimal "-007" (-7) := by
  have hDigits : ∀ c ∈ ['0', '0', '7'], c.isDigit = true := by
    simp only [List.forall_mem_cons]
    exact ⟨rfl, rfl, rfl, List.forall_mem_nil _⟩
  exact .minus (List.cons_ne_nil _ _) hDigits

theorem given_mixedPairs :
    Given ⟨["notes"], []⟩ mixedPairs { profile := some "stats", loops := 0, step := -7 } where
  loops := ⟨isDecimal_zero, by decide, by decide⟩
  deepest := rfl
  widest := rfl
  step := ⟨isDecimal_minusSeven, by decide, nofun⟩
  profile := rfl
  profileNew := by
    rintro file ⟨⟩
    exact ⟨⟨by decide, by decide, by decide, by decide, by decide⟩, by decide +kernel⟩

theorem answer_wordsOf_mixed :
    let around : Surroundings := ⟨⟨["notes"], []⟩, 0, .cycle #[3, 1]⟩
    let settings : Settings := { profile := some "stats", loops := 0, step := -7 }
    let others := [(.profile, "stats"), (.loops, "many"), (.loops, "0"), (.step, "-007")]
    answer wordReader Clock.tick around (wordsOf mixedPairs) = run Clock.tick settings around ∧
      answer wordReader Clock.tick around (wordsOf others) =
        answer wordReader Clock.tick around (wordsOf mixedPairs) ∧
      Misused wordReader around (wordsOf (mixedPairs ++ [(.loops, "-007")])) ∧
      Misused wordReader around (wordsOf (mixedPairs ++ [(.step, "many")])) ∧
      Misused wordReader around (wordsOf (mixedPairs ++ [(.profile, "./notes")])) := by
  intro around settings others
  obtain ⟨hGiven, hOthers, hMisgiven, -⟩ := answer_wordsOf wordReader_lawful around
  have hRun := hGiven mixedPairs settings given_mixedPairs Clock.tick
  have hSame (name : OptionName) : valuesOf others name = valuesOf mixedPairs name := by
    cases name <;> rfl
  have hNull : ∀ file ∈ lastOf mixedPairs .profile, '\x00' ∉ file.toList := by
    rintro file ⟨⟩
    decide
  have hMany : IsNoInteger "many" := .strange (by decide : 'm' ∈ "many".toList) (by decide)
  refine ⟨hRun, ?_, ?_, ?_, ?_⟩
  · rcases hOthers mixedPairs others hSame hNull with hEqual | ⟨-, complaint, hMisused⟩
    · exact hEqual Clock.tick
    · have hEnding : ((run Clock.tick settings around).run (.cycle #[])).1.ending =
          .exit usageCode := by
        rw [← hRun, hMisused]
        rfl
      cases hEnding
  · have hLoops : lastOf (mixedPairs ++ [(.loops, "-007")]) .loops = some "-007" := rfl
    exact hMisgiven _ (.negative (Or.inl rfl) hLoops isDecimal_minusSeven (by decide))
  · have hStep : lastOf (mixedPairs ++ [(.step, "many")]) .step = some "many" := rfl
    exact hMisgiven _ (.noInteger (by decide) hStep hMany)
  · have hThere : leadsTo around.toFiles "./notes" = .ok .file := by decide +kernel
    exact hMisgiven _ (.taken rfl hThere (by decide))

/-- The digits of a decimal integer, one more than are read. -/
def manyDigits : List Char :=
  '1' :: List.replicate digitLimit '0'

theorem isDigit_manyDigits : ∀ c ∈ manyDigits, c.isDigit = true := by
  rw [manyDigits, List.forall_mem_cons]
  refine ⟨rfl, ?_⟩
  intro c hc
  rw [List.eq_of_mem_replicate hc]
  rfl

theorem isDecimal_manyDigits :
    IsDecimal (String.ofList manyDigits) (ofDigits (digitValues manyDigits)) :=
  .bare (List.cons_ne_nil _ _) isDigit_manyDigits

theorem isNoInteger_manyDigits : IsNoInteger (String.ofList manyDigits) := by
  refine .tooLong isDecimal_manyDigits ?_
  rw [countingDigits, digitsOf, String.toList_ofList, List.filter_eq_self.mpr isDigit_manyDigits,
    manyDigits, List.dropWhile_cons_of_neg (by decide), List.length_cons, List.length_replicate]
  omega

/-- Nothing is there, and nothing can be drawn. -/
def emptySurroundings : Surroundings :=
  ⟨⟨[], []⟩, 0, .cycle #[]⟩

/-- No documents, with a step. -/
def stepPairs (value : String) : List (OptionName × String) :=
  [(.loops, "0"), (.step, value)]

def stepOutcome (reader : Reader) (value : String) : Outcome :=
  ((answer reader Clock.tick emptySurroundings (wordsOf (stepPairs value))).run (.cycle #[])).1

def idleOutcome (step : Int) : Outcome :=
  ((run Clock.tick { loops := 0, step := step } emptySurroundings).run (.cycle #[])).1

theorem stepOutcome_ending {value : String} (hReader : reader.Lawful) (h : IsNoInteger value) :
    (stepOutcome reader value).ending = .exit usageCode := by
  have hLast : lastOf (stepPairs value) .step = some value := rfl
  have hRefuses : (required .step).Refuses reader.integer? (leadsTo emptySurroundings.toFiles) value :=
    refuses_of_unread (by decide) (hReader.integer?_of_isNoInteger h)
  obtain ⟨complaint, hMisused⟩ := misused_of_refuses hReader hLast hRefuses
  rw [stepOutcome, hMisused]
  rfl

theorem idleOutcome_ending (step : Int) : (idleOutcome step).ending = .exit 0 :=
  rfl

/-- A decimal integer of too many digits is an error of usage, for any lawful reader. -/
theorem not_forall_answer_wordsOf :
    ¬∃ reader : Reader, reader.Lawful ∧
      ∀ value n, IsDecimal value n → stepOutcome reader value = idleOutcome n := by
  rintro ⟨reader, hReader, hRun⟩
  have hEnding := stepOutcome_ending hReader isNoInteger_manyDigits
  rw [hRun _ _ isDecimal_manyDigits, idleOutcome_ending] at hEnding
  cases hEnding

end XmlLayout.Check

import XmlLayout.Check.FileName
import XmlLayout.Content
import XmlLayout.Sample.Documents
import XmlLayout.Timing.Pair

/-!
# The check

Sample documents are written and read back, again and again: what is read has to have the same
content, and a reference that makes every indent anew has to write the same text. A report on the
times, or a file with a profile, ends the check. A profile never replaces a file, and nothing is
done when the tests that come first have found problems.

What the check does to the world is told by its outcome: how it ends, what it prints, which files
there are, and how many numbers it drew. Only the clock is read on the way, by the step `tick`.
-/

namespace XmlLayout.Check

open Document Sample Timing

/-- What a check is asked to do. -/
structure Settings where
  /-- A file for the profile; without one the writers are timed. -/
  profile : Option String := none
  loops : Int := 250
  deepest : Int := 8
  widest : Int := 6
  step : Int := 3

/-- What a check finds when it begins. -/
structure Surroundings extends Files where
  /-- The number of problems that the tests before the check have found. -/
  problems : Int
  draws : Draws

inductive Ending where
  | exit (code : Nat)
  | raised (cause : Error)
  deriving DecidableEq

/-- What a check leaves behind. -/
structure Outcome where
  ending : Ending
  printed : String
  complaints : String
  files : List String
  drawn : Nat

/-- Why a check ends before its report. -/
inductive Halt where
  | raised (cause : Error)
  | failed (what : String)

/-- What a check works with: its source of numbers and its writers. -/
structure Bench where
  bounds : Bounds
  draws : Draws
  pair : Pair

def Bench.ofSettings (settings : Settings) (draws : Draws) : Bench where
  bounds := ⟨settings.deepest, settings.widest⟩
  draws := draws
  pair := .ofStep settings.step (settings.profile.map tidyPath)

variable {m : Type → Type} [Monad m]

/-- Compares the text of a document with the document, and with the reference. -/
def verify (tick : m Int) (b : Bench) (root : Node) (text : String) : m (Option Halt × Bench) := do
  match differs root text with
  | .error cause => return (some (.raised cause), b)
  | .ok true => return (some (.failed "encode then parse"), b)
  | .ok false =>
    let (reference, pair) ← b.pair.encodeReference tick root
    let halt := match reference with
      | .error cause => some (Halt.raised cause)
      | .ok (some other) =>
        if other = text then none else some (.failed "cached versus uncached")
      | .ok none => none
    return (halt, { b with pair := pair })

/-- Makes one document, writes it and verifies it. -/
def round (tick : m Int) (b : Bench) : m (Option Halt × Bench) := do
  match (document b.bounds).run b.draws with
  | .error cause draws => return (some (.raised cause), { b with draws := draws })
  | .ok root draws =>
    let (written, pair) ← b.pair.encode tick root
    let b := { b with draws := draws, pair := pair }
    match written with
    | .error cause => return (some (.raised cause), b)
    | .ok text => verify tick b root text

/-- Goes through several rounds, up to the first that halts the check. -/
def rounds (tick : m Int) (b : Bench) : Nat → m (Option Halt × Bench)
  | 0 => return (none, b)
  | n + 1 => do
    match ← round tick b with
    | (none, b) => rounds tick b n
    | (some halt, b) => return (some halt, b)

def complaint (what : String) : String :=
  "FAILED " ++ what ++ "\n"

/-- What the rounds and the report leave behind, where a file may be added to those that exist. -/
def conclude (files : Files) : Option Halt × Bench → Outcome
  | (some (.raised cause), b) =>
    ⟨.raised cause, "", "", sortedNames files.existing, b.draws.used⟩
  | (some (.failed what), b) =>
    ⟨.exit 1, "", complaint what, sortedNames files.existing, b.draws.used⟩
  | (none, b) => match b.pair.report (b.pair.profile.bind (makingFault? files)) with
    | (printed, some cause) =>
      ⟨.raised cause, printed, "", sortedNames files.existing, b.draws.used⟩
    | (printed, none) =>
      let made := b.pair.profile.filter isInside
      ⟨.exit 0, printed, "", sortedNames (made.toList ++ files.existing), b.draws.used⟩

/-- How the file for the profile ends a check before it begins, and the complaint about it: the file
is there, or its name is too long to tell. -/
def refusal? (files : Files) (file : String) : Option (Ending × String) :=
  match leadsTo files file with
  | .ok _ => some (.exit 1, complaint ("won't overwrite: " ++ tidyPath file))
  | .error .tooLong => some (.raised (.nameTooLong (tidyPath file)), "")
  | .error _ => none

def run (tick : m Int) (settings : Settings) (around : Surroundings) : m Outcome :=
  let files := sortedNames around.existing
  match settings.profile.bind (refusal? around.toFiles) with
  | some (ending, complaints) => return ⟨ending, "", complaints, files, around.draws.used⟩
  | none =>
    if around.problems ≠ 0 then
      return ⟨.exit 1, "", complaint "unit tests", files, around.draws.used⟩
    else if settings.loops = 0 then return ⟨.exit 0, "", "", files, around.draws.used⟩
    else do
      let result ← rounds tick (.ofSettings settings around.draws) settings.loops.toNat
      return conclude around.toFiles result

end XmlLayout.Check

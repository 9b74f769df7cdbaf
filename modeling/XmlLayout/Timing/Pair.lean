import XmlLayout.Timing.Stopwatch
import XmlLayout.Writing.Writer

/-!
# A pair of writers that are timed

Two writers with the same step: one gives indents again from their slots, the other, the
reference, makes each anew. Each has its stopwatch, and both look at the same clock. Instead of
being timed the first writer may be profiled, with the profile going to a file in the end; then
the reference has nothing to do and the clock is not read.

The clock is given as the step `tick` of whatever computation the writers are part of.
-/

namespace XmlLayout.Timing

open Document Indent Writing

/-- A writer that gives indents again, a reference, and their stopwatches. -/
structure Pair where
  primary : Writer
  reference : Writer
  primaryWatch : Stopwatch
  referenceWatch : Stopwatch
  /-- The file for the profile, if the first writer is profiled. -/
  profile : Option String

namespace Pair

def ofStep (step : Int) (profile : Option String) : Pair where
  primary := .ofStack (Stack.fresh step 16 false .fromSlot)
  reference := .ofStack (Stack.fresh step 16 false .never)
  primaryWatch := {}
  referenceWatch := {}
  profile := profile

/-- Has a writer encode a tree; the text, or why it failed, and the writer afterwards. -/
def textOf (w : Writer) (root : Node) : Except Error String × Writer :=
  let (fault, after) := w.encode root
  (match fault with
    | none => .ok after.buffer.text
    | some cause => .error cause, after)

variable {m : Type → Type} [Monad m]

/-- Encodes a tree between a start and a stop. A failure is timed too. -/
def measured (tick : m Int) (w : Writer) (watch : Stopwatch) (root : Node) :
    m (Except Error String × Writer × Stopwatch) := do
  let start ← tick
  let (result, after) ← pure (textOf w root)
  let stop ← tick
  return (result, after, (watch.startAt start).stopAt stop)

/-- Encodes a tree with the first writer. -/
def encode (tick : m Int) (p : Pair) (root : Node) : m (Except Error String × Pair) := do
  if p.profile.isSome then
    let (result, after) := textOf p.primary root
    return (result, { p with primary := after })
  else
    let (result, after, watch) ← measured tick p.primary p.primaryWatch root
    return (result, { p with primary := after, primaryWatch := watch })

/-- Encodes a tree with the reference writer; nothing if the first writer is profiled. -/
def encodeReference (tick : m Int) (p : Pair) (root : Node) :
    m (Except Error (Option String) × Pair) := do
  if p.profile.isSome then return (.ok none, p)
  else
    let (result, after, watch) ← measured tick p.reference p.referenceWatch root
    return (result.map some, { p with reference := after, referenceWatch := watch })

/-- The report on the times, or on where the profile went. An average that cannot be computed, or
an `obstacle` to making the file for the profile, ends it early: then the second part says why. -/
def report (p : Pair) (obstacle : Option Error) : String × Option Error :=
  let title := "   Markup\n"
  match p.profile with
  | some file => match obstacle with
    | some cause => (title, some cause)
    | none => (title ++ "\t(written to " ++ file ++ ")\n", none)
  | none => match p.primaryWatch.average with
    | .error cause => (title, some cause)
    | .ok primary =>
      let first := title ++ "\t  cached = " ++ figureText primary ++ "\n"
      match p.referenceWatch.average, p.referenceWatch.ratio p.primaryWatch with
      | .ok reference, .ok ratio =>
        (first ++ "\tuncached = " ++ figureText reference ++ "  (" ++ figureText ratio ++ ")\n",
          none)
      | .error cause, _ => (first, some cause)
      | _, .error cause => (first, some cause)

end Pair

end XmlLayout.Timing

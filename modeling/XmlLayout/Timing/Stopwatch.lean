import XmlLayout.Decimal.Layout
import XmlLayout.Error

/-!
# Stopwatches

A stopwatch adds up the time between its starts and stops and counts the stops. A clock is an
unending sequence of readings, each of which is read once; any number of stopwatches may look at
one clock.
-/

namespace XmlLayout.Timing

open Decimal (Binary64)

/-- A clock, and how often it was read. -/
structure Clock where
  reading : Nat → Int
  reads : Nat

/-- The readings of a list, over and over; only zeros if it is empty. -/
def Clock.cycle (readings : Array Int) : Clock :=
  ⟨fun i => readings.getD (i % readings.size) 0, 0⟩

def Clock.read (c : Clock) : Int × Clock :=
  (c.reading c.reads, { c with reads := c.reads + 1 })

/-- Reading a clock as a step of a computation. -/
def Clock.tick : StateM Clock Int :=
  modifyGet Clock.read

/-- A stopwatch: the time that was measured, how often, and the reading at the latest start. -/
structure Stopwatch where
  total : Int := 0
  count : Int := 0
  start : Int := 0
  deriving DecidableEq, Repr

namespace Stopwatch

def startAt (w : Stopwatch) (now : Int) : Stopwatch :=
  { w with start := now }

def stopAt (w : Stopwatch) (now : Int) : Stopwatch :=
  { w with total := w.total + (now - w.start), count := w.count + 1 }

/-- The average time; none if nothing was measured. -/
def average (w : Stopwatch) : Except Error (Option Binary64) :=
  if w.count = 0 then .ok none
  else match Binary64.quotient? w.total w.count with
    | some x => .ok (some x)
    | none => .error .quotientTooLarge

/-- How many times longer than `other` on average, to two places; none if the other's average
says nothing. -/
def ratio (w other : Stopwatch) : Except Error (Option Binary64) :=
  match other.average with
  | .error cause => .error cause
  | .ok none => .ok none
  | .ok (some y) =>
    if y.isZero then .ok none
    else w.average.map fun x => some (((x.getD (.zero false)).div y).roundPlaces 2)

end Stopwatch

/-- An average as it is printed; none is the integer zero. -/
def figureText : Option Binary64 → String
  | none => "0"
  | some x => x.text

end XmlLayout.Timing

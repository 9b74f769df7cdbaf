import XmlLayout.Timing.Stopwatch

/-!
# Stopwatches on a rack

Stopwatches with names, made when first named, and the clock that all of them look at. Each
start and each stop reads the clock once, in the order in which they happen. What is done between
a start and a stop may fail: the stopwatch is stopped all the same, and the failure goes on.
-/

namespace XmlLayout.Timing

/-- Stopwatches by name, and their clock. -/
structure Rack where
  clock : Clock
  watches : List (String × Stopwatch)

/-- What is done with a stopwatch on a rack. -/
inductive Press where
  | start
  | stop
  /-- Times something that fails, as the message tells. -/
  | failing (message : String)
  deriving DecidableEq, Repr

namespace Rack

/-- A rack without stopwatches. -/
def ofClock (clock : Clock) : Rack :=
  ⟨clock, []⟩

def watch (r : Rack) (name : String) : Stopwatch :=
  (r.watches.lookup name).getD {}

/-- Puts a stopwatch in the place of a name. -/
def put (r : Rack) (name : String) (w : Stopwatch) : Rack :=
  { r with watches := (name, w) :: r.watches.filter fun entry => entry.1 ≠ name }

def start (r : Rack) (name : String) : Rack :=
  let (now, clock) := r.clock.read
  { r with clock := clock }.put name ((r.watch name).startAt now)

def stop (r : Rack) (name : String) : Rack :=
  let (now, clock) := r.clock.read
  { r with clock := clock }.put name ((r.watch name).stopAt now)

/-- Times what `body` does, whether it fails or not. -/
def within (r : Rack) (name : String) (body : Rack → Except String Unit × Rack) :
    Except String Unit × Rack :=
  let (result, after) := body (r.start name)
  (result, after.stop name)

/-- Does something with a stopwatch; the failure that comes out, if any, and the rack. -/
def press (r : Rack) (name : String) : Press → Except String Unit × Rack
  | .start => (.ok (), r.start name)
  | .stop => (.ok (), r.stop name)
  | .failing message => r.within name fun inner => (.error message, inner)

end Rack

end XmlLayout.Timing

import Mathlib.Algebra.BigOperators.Group.List.Basic
import Mathlib.Algebra.Ring.Int.Defs
import Mathlib.Data.List.Induction
import XmlLayout.Proofs.Timing.Pair
import XmlLayout.Timing.Rack

/-!
# Stopwatches in use

What is done with the stopwatches of a rack may be nested: while one of them measures, others are
started and stopped, or the same one once more, and a failure goes through all that are measuring up to
where it is stopped. Whatever is done, all that happens to the stopwatches is a list of starts and
stops, each of which reads the clock once; so the reading of each is known from its place in this list,
and a stopwatch is known from the starts and stops of its own.

* `Deed.outcome`: the starts and stops that come of a deed, and how it ends, with no clock in it.
* `Rack.perform_eq`: a deed does that.
* `Rack.watch_after_ofClock`: a stopwatch, from all starts and stops.
* `Rack.performEach_ofClock`: several deeds on a fresh rack.
-/

namespace XmlLayout.Timing

/-- A start or a stop of a stopwatch. -/
inductive Event where
  | started (name : String)
  | stopped (name : String)
  deriving DecidableEq

def Event.name : Event → String
  | started name => name
  | stopped name => name

/-- What is done with the stopwatches of a rack. -/
inductive Deed where
  | press (name : String) (press : Press)
  | fail (message : String)
  /-- Times several deeds, up to the first that fails. -/
  | within (name : String) (body : List Deed)
  /-- Does several deeds up to the first that fails; the failure goes no further. -/
  | attempt (body : List Deed)

/-! ## Deeds -/

namespace Rack

mutual

def perform : Deed → Rack → Except String Unit × Rack
  | .press name press, r => r.press name press
  | .fail message, r => (.error message, r)
  | .within name body, r => r.within name (performAll body)
  | .attempt body, r => (.ok (), (performAll body r).2)

/-- Several deeds; the first that fails is the last. -/
def performAll : List Deed → Rack → Except String Unit × Rack
  | [], r => (.ok (), r)
  | deed :: rest, r => match perform deed r with
    | (.ok (), after) => performAll rest after
    | (.error message, after) => (.error message, after)

end

/-- Several deeds, all of which are done, with the failures that come out. -/
def performEach (r : Rack) : List Deed → List (Except String Unit) × Rack
  | [] => ([], r)
  | deed :: rest =>
    let (result, after) := perform deed r
    let (results, last) := after.performEach rest
    (result :: results, last)

/-- What a start or a stop does. -/
def mark (r : Rack) : Event → Rack
  | .started name => r.start name
  | .stopped name => r.stop name

def after (r : Rack) (events : List Event) : Rack :=
  events.foldl mark r

theorem after_append (r : Rack) (events more : List Event) :
    r.after (events ++ more) = (r.after events).after more :=
  List.foldl_append

theorem after_concat (r : Rack) (events : List Event) (event : Event) :
    r.after (events ++ [event]) = (r.after events).mark event :=
  List.foldl_concat _ _ _ _

end Rack

namespace Deed

mutual

/-- How a deed ends, and the starts and stops that come of it. -/
def outcome : Deed → Except String Unit × List Event
  | press name .start => (.ok (), [.started name])
  | press name .stop => (.ok (), [.stopped name])
  | press name (.failing message) => (.error message, [.started name, .stopped name])
  | fail message => (.error message, [])
  | within name body =>
    ((outcomeAll body).1, .started name :: (outcomeAll body).2 ++ [.stopped name])
  | attempt body => (.ok (), (outcomeAll body).2)

def outcomeAll : List Deed → Except String Unit × List Event
  | [] => (.ok (), [])
  | deed :: rest => match deed.outcome with
    | (.ok (), events) => ((outcomeAll rest).1, events ++ (outcomeAll rest).2)
    | (.error message, events) => (.error message, events)

end

def events (deed : Deed) : List Event :=
  deed.outcome.2

end Deed

namespace Rack

mutual

theorem perform_eq (deed : Deed) (r : Rack) :
    perform deed r = (deed.outcome.1, r.after deed.outcome.2) := by
  cases deed with
  | press name press =>
    cases press with
    | start => rfl
    | stop => rfl
    | failing message => rfl
  | fail message => rfl
  | within name body =>
    have hEvents : r.after (.started name :: (Deed.outcomeAll body).2 ++ [.stopped name]) =
        ((r.start name).after (Deed.outcomeAll body).2).stop name :=
      after_append (r.start name) _ _
    rw [perform, within, performAll_eq body, Deed.outcome, hEvents]
  | attempt body =>
    rw [perform, performAll_eq body, Deed.outcome]

theorem performAll_eq (deeds : List Deed) (r : Rack) :
    performAll deeds r = ((Deed.outcomeAll deeds).1, r.after (Deed.outcomeAll deeds).2) := by
  cases deeds with
  | nil => rfl
  | cons deed rest =>
    rw [performAll, perform_eq deed r, Deed.outcomeAll]
    rcases deed.outcome with ⟨_ | ⟨⟩, events⟩
    · rfl
    · dsimp only
      rw [performAll_eq rest, after_append]

end

theorem performEach_eq (deeds : List Deed) (r : Rack) :
    r.performEach deeds =
      (deeds.map fun deed => deed.outcome.1, r.after (deeds.flatMap Deed.events)) := by
  induction deeds generalizing r with
  | nil => rfl
  | cons deed rest ih =>
    rw [performEach, perform_eq, List.flatMap_cons, after_append, ← Deed.events]
    dsimp only
    rw [ih]
    rfl

/-! ## One stopwatch among the others -/

variable {name : String}

theorem lookup_filter_of_ne {other : String} (h : other ≠ name)
    (watches : List (String × Stopwatch)) :
    (watches.filter fun entry => entry.1 ≠ name).lookup other = watches.lookup other := by
  induction watches with
  | nil => rfl
  | cons first rest ih =>
    by_cases hFirst : first.1 = name
    · have hOther : (other == first.1) = false := by
        rw [hFirst, beq_eq_false_iff_ne]
        exact h
      rw [List.filter_cons_of_neg (by simpa using hFirst), ih, List.lookup_cons, hOther]
    · rw [List.filter_cons_of_pos (by simpa using hFirst), List.lookup_cons, List.lookup_cons, ih]

theorem watch_put (r : Rack) (name other : String) (w : Stopwatch) :
    (r.put name w).watch other = if other = name then w else r.watch other := by
  unfold watch put
  rw [List.lookup_cons]
  by_cases hName : other = name
  · rw [beq_iff_eq.mpr hName, if_pos hName]
    rfl
  · rw [beq_eq_false_iff_ne.mpr hName, if_neg hName, lookup_filter_of_ne hName]

/-- The next reading of the clock. -/
def now (r : Rack) : Int :=
  r.clock.reading r.clock.reads

theorem clock_mark (r : Rack) (event : Event) : (r.mark event).clock = r.clock.later 1 := by
  cases event with
  | started name => rfl
  | stopped name => rfl

/-- A start or a stop changes its own stopwatch and no other. -/
theorem watch_mark (r : Rack) (event : Event) (name : String) :
    (r.mark event).watch name =
      if event = .started name then (r.watch name).startAt r.now
      else if event = .stopped name then (r.watch name).stopAt r.now
      else r.watch name := by
  cases event with
  | started other =>
    have hMark : (r.mark (.started other)).watch name =
        if name = other then (r.watch other).startAt r.now else r.watch name :=
      watch_put { r with clock := r.clock.later 1 } other name _
    rw [hMark]
    by_cases hName : name = other
    · rw [if_pos hName, if_pos (congrArg Event.started hName.symm), hName]
    · have hEvent : Event.started other ≠ .started name := fun hSame =>
        hName (Event.started.inj hSame).symm
      have hKind : Event.started other ≠ .stopped name := Event.noConfusion
      rw [if_neg hName, if_neg hEvent, if_neg hKind]
  | stopped other =>
    have hMark : (r.mark (.stopped other)).watch name =
        if name = other then (r.watch other).stopAt r.now else r.watch name :=
      watch_put { r with clock := r.clock.later 1 } other name _
    have hKind : Event.stopped other ≠ .started name := Event.noConfusion
    rw [hMark, if_neg hKind]
    by_cases hName : name = other
    · rw [if_pos hName, if_pos (congrArg Event.stopped hName.symm), hName]
    · have hEvent : Event.stopped other ≠ .stopped name := fun hSame =>
        hName (Event.stopped.inj hSame).symm
      rw [if_neg hName, if_neg hEvent]

theorem clock_after (r : Rack) (events : List Event) :
    (r.after events).clock = r.clock.later events.length := by
  induction events generalizing r with
  | nil => rfl
  | cons event rest ih =>
    have hRest : ((r.mark event).after rest).clock = (r.mark event).clock.later rest.length := ih _
    rw [clock_mark, Clock.later, Clock.later] at hRest
    rw [after, List.foldl_cons, ← after, hRest, Clock.later, List.length_cons, Nat.add_assoc,
      Nat.add_comm 1]

/-- What is done with others leaves a stopwatch as it is. -/
theorem watch_after_of_ne {events : List Event} {name : String}
    (h : ∀ event ∈ events, event.name ≠ name) (r : Rack) :
    (r.after events).watch name = r.watch name := by
  induction events generalizing r with
  | nil => rfl
  | cons event rest ih =>
    obtain ⟨hName, hRest⟩ := List.forall_mem_cons.mp h
    have hStarted : event ≠ .started name := fun hSame => hName (congrArg Event.name hSame)
    have hStopped : event ≠ .stopped name := fun hSame => hName (congrArg Event.name hSame)
    rw [after, List.foldl_cons, ← after, ih hRest, watch_mark, if_neg hStarted, if_neg hStopped]

end Rack

/-! ## The history of a stopwatch -/

namespace Clock

/-- The reading that comes after so many others. -/
def ahead (clock : Clock) (n : Nat) : Int :=
  clock.reading (clock.reads + n)

/-- The reading at the latest start of a stopwatch; zero if it was never started. -/
def latestStart (clock : Clock) (name : String) (events : List Event) : Int :=
  match (events.zipIdx.filter fun entry => entry.1 = .started name).getLast? with
  | some entry => clock.ahead entry.2
  | none => 0

/-- The times from the latest start of a stopwatch to each of its stops. -/
def spans (clock : Clock) (name : String) (events : List Event) : List Int :=
  (events.zipIdx.filter fun entry => entry.1 = .stopped name).map fun entry =>
    clock.ahead entry.2 - clock.latestStart name (events.take entry.2)

theorem filter_zipIdx_append (p : Event × Nat → Bool) (events : List Event) (event : Event) :
    (events ++ [event]).zipIdx.filter p =
      events.zipIdx.filter p ++ if p (event, events.length) then [(event, events.length)] else [] := by
  rw [List.zipIdx_append, List.filter_append, Nat.zero_add]
  congr 1
  rw [List.zipIdx_singleton, List.filter_singleton, Bool.cond_eq_ite]

theorem latestStart_append (clock : Clock) (name : String) (events : List Event) (event : Event) :
    clock.latestStart name (events ++ [event]) =
      if event = .started name then clock.ahead events.length
      else clock.latestStart name events := by
  unfold latestStart
  rw [filter_zipIdx_append]
  by_cases hEvent : event = .started name
  · simp only [hEvent, decide_true, if_true, List.getLast?_concat]
  · simp only [hEvent, decide_false, Bool.false_eq_true, if_false, List.append_nil]

theorem spans_append (clock : Clock) (name : String) (events : List Event) (event : Event) :
    clock.spans name (events ++ [event]) = clock.spans name events ++
      if event = .stopped name then
        [clock.ahead events.length - clock.latestStart name events]
      else [] := by
  -- The events in front of an earlier one are the same.
  have hEarlier : (events.zipIdx.filter fun entry => entry.1 = .stopped name).map
        (fun entry => clock.ahead entry.2 -
          clock.latestStart name ((events ++ [event]).take entry.2)) =
      clock.spans name events := by
    apply List.map_congr_left
    intro entry hEntry
    have hLess := (List.mem_zipIdx (List.mem_of_mem_filter hEntry)).2.1
    rw [List.take_append_of_le_length (by omega)]
  rw [← hEarlier]
  unfold spans
  rw [filter_zipIdx_append, List.map_append]
  by_cases hEvent : event = .stopped name
  · simp only [hEvent, decide_true, if_true, List.map_cons, List.map_nil, List.take_left]
  · simp only [hEvent, decide_false, Bool.false_eq_true, if_false, List.map_nil]

end Clock

namespace Rack

/-- By induction on the starts and stops from the last one on, before which the latest start is
known. -/
theorem watch_after_ofClock (clock : Clock) (events : List Event) (name : String) :
    ((ofClock clock).after events).watch name =
      { total := (clock.spans name events).sum
        count := events.count (.stopped name)
        start := clock.latestStart name events } := by
  induction events using List.reverseRecOn with
  | nil => rfl
  | append_singleton events event ih =>
    have hNow : ((ofClock clock).after events).now = clock.ahead events.length := by
      rw [now, clock_after]
      rfl
    rw [after_concat, watch_mark, ih, hNow, Clock.spans_append, Clock.latestStart_append,
      List.count_append]
    by_cases hStarted : event = .started name
    · simp [hStarted, Stopwatch.startAt]
    · by_cases hStopped : event = .stopped name
      · simp [hStopped, Stopwatch.stopAt]
      · simp [hStarted, hStopped]

/-- Deeds on a fresh rack, any of which may fail: each ends as its body does, whichever stopwatches
measure it. The clock is read once for each start and each stop, in the order of these. A stopwatch
holds the number of its stops, the times to them from its latest start before, and the reading at its
latest start of all. And no deed, on whatever rack, changes a stopwatch that it neither starts nor
stops. -/
theorem performEach_ofClock (clock : Clock) (deeds : List Deed) :
    let (results, r) := (ofClock clock).performEach deeds
    let events := deeds.flatMap Deed.events
    results = (deeds.map fun deed => deed.outcome.1) ∧
      r.clock = clock.later events.length ∧
      (∀ name, r.watch name =
        { total := (clock.spans name events).sum
          count := events.count (.stopped name)
          start := clock.latestStart name events }) ∧
      ∀ (s : Rack) (deed : Deed) (name : String), (∀ event ∈ deed.events, event.name ≠ name) →
        (perform deed s).2.watch name = s.watch name := by
  rw [performEach_eq]
  refine ⟨rfl, clock_after _ _, fun name => watch_after_ofClock clock _ name, ?_⟩
  intro s deed name hOthers
  rw [perform_eq]
  exact watch_after_of_ne hOthers s

/-- A stopwatch that measures twice at once, with a failure inside, by a clock that goes back; one
that has not been used is not changed by that. -/
theorem performEach_ofClock_nested :
    let deeds := [.press "a" .stop,
      .within "a" [.press "b" .start, .attempt [.within "a" [.fail "late"]],
        .press "b" (.failing "low")]]
    let (results, r) := (ofClock (.cycle #[90, 80, 75, 73, 72, 71, 20])).performEach deeds
    results = [.ok (), .error "low"] ∧
      r.watch "a" = { total := 90 + (72 - 73) + (90 - 73), count := 3, start := 73 } ∧
      r.watch "b" = { total := 20 - 71, count := 1, start := 71 } ∧
      (perform (.within "a" []) r).2.watch "b" = r.watch "b" := by
  obtain ⟨hResults, -, hWatch, hOthers⟩ :=
    performEach_ofClock (.cycle #[90, 80, 75, 73, 72, 71, 20]) [.press "a" .stop,
      .within "a" [.press "b" .start, .attempt [.within "a" [.fail "late"]],
        .press "b" (.failing "low")]]
  refine ⟨hResults, (hWatch "a").trans (by decide), (hWatch "b").trans (by decide), ?_⟩
  exact hOthers _ (.within "a" []) "b" (by decide)

end Rack

end XmlLayout.Timing

import Mathlib.Algebra.Ring.Int.Defs
import XmlLayout.Proofs.Timing.Pair

/-!
# Calls of a pair of writers

The writers of a pair may be called in any order. What a call gives depends on its tree only:
neither what the two have written before, nor where an earlier call failed, makes a difference. A
call reads the clock when it begins and when it ends, so the reading at which it begins is known
from the number of calls before it, whichever writers they asked; and a stopwatch is moved on by the
calls of its own writer and no others.

* `Pair.Ready.perform`: what one call gives and changes.
* `Pair.Ready.performAll`: what calls give and change, one behind the other.
* `Pair.performAll_ofStep`: the same for a pair as it is made.
-/

namespace XmlLayout.Timing

open Document Indent Writing

/-- Which writer of a pair is asked. -/
inductive Side where
  | primary
  | reference
  deriving DecidableEq

structure Call where
  side : Side
  root : Node

namespace Pair

/-- What a call gives: a text, or why there is none. -/
abbrev Answer := Except Error (Option String)

def watch (p : Pair) : Side → Stopwatch
  | .primary => p.primaryWatch
  | .reference => p.referenceWatch

def perform (p : Pair) (call : Call) : StateM Clock (Answer × Pair) :=
  match call.side with
  | .primary => do
    let (answer, after) ← p.encode Clock.tick call.root
    return (answer.map some, after)
  | .reference => p.encodeReference Clock.tick call.root

/-- Calls, one behind the other. A failure does not keep the next call from being made. -/
def performAll (p : Pair) : List Call → StateM Clock (List Answer × Pair)
  | [] => return ([], p)
  | call :: rest => do
    let (answer, after) ← p.perform call
    let (answers, last) ← after.performAll rest
    return (answer :: answers, last)

end Pair

/-! ## Times -/

namespace Clock

/-- The time between the next two readings. -/
def nextSpan (clock : Clock) : Int :=
  clock.reading (clock.reads + 1) - clock.reading clock.reads

/-- The time that the calls of a side take, where each call, of either side, reads the clock twice. -/
def spent (clock : Clock) (side : Side) (calls : List Call) : Int :=
  ((calls.zipIdx.filter fun call => call.1.side = side).map fun call =>
    (clock.later (2 * call.2)).nextSpan).sum

theorem later_later (clock : Clock) (m n : Nat) :
    (clock.later m).later n = clock.later (m + n) := by
  rw [later, later, later, Nat.add_assoc]

theorem spent_cons (clock : Clock) (side : Side) (call : Call) (rest : List Call) :
    clock.spent side (call :: rest) =
      (if call.side = side then clock.nextSpan else 0) + (clock.later 2).spent side rest := by
  have hRest : ((rest.zipIdx 1).filter fun call => call.1.side = side).map
        (fun call => (clock.later (2 * call.2)).nextSpan) =
      (rest.zipIdx.filter fun call => call.1.side = side).map
        fun call => ((clock.later 2).later (2 * call.2)).nextSpan := by
    rw [List.zipIdx_succ, List.filter_map, List.map_map]
    refine List.map_congr_left fun entry _ => ?_
    have hReads : 2 * (entry.2 + 1) = 2 + 2 * entry.2 := by omega
    rw [later_later, ← hReads]
    rfl
  unfold spent
  rw [List.zipIdx_cons, List.filter_cons, ← hRest]
  by_cases hSide : call.side = side
  · simp only [hSide, decide_true, if_true, List.map_cons, List.sum_cons]
    rfl
  · simp only [hSide, decide_false, Bool.false_eq_true, if_false, Int.zero_add]

end Clock

/-! ## Calls -/

namespace Pair

variable {step : Int} {p : Pair}

/-- A pair that is timed, whose writers are in states that runs lead to. -/
structure Ready (step : Int) (p : Pair) : Prop where
  primary : p.primary.Steady 16 step
  reference : p.reference.Steady 16 step
  profile : p.profile = none

theorem ready_ofStep (step : Int) : (ofStep step none).Ready step where
  primary := ⟨rfl, _, .of_fresh step 16 false .fromSlot⟩
  reference := ⟨rfl, _, .of_fresh step 16 false .never⟩
  profile := rfl

/-- A call gives the text of its tree, reads the clock twice, and moves the stopwatch of its own
writer on. -/
theorem Ready.perform (h : p.Ready step) (call : Call) (clock : Clock) :
    ∃ q, (p.perform call).run clock =
        (((encodeToText call.root step).map some, q), clock.later 2) ∧
      q.Ready step ∧
      ∀ side, q.watch side =
        if call.side = side then (p.watch side).timed clock else p.watch side := by
  have hTimed : ¬p.profile.isSome = true := by
    rw [h.profile]
    exact Bool.false_ne_true
  obtain ⟨side, root⟩ := call
  cases side with
  | primary =>
    obtain ⟨hText, hAfter⟩ := textOf_of_steady h.primary root
    have hEncode : (p.encode Clock.tick root).run clock =
        ((encodeToText root step, { p with
          primary := (textOf p.primary root).2
          primaryWatch := p.primaryWatch.timed clock }), clock.later 2) := by
      rw [run_encode, if_neg hTimed, hText]
    refine ⟨_, bind_of_run hEncode, ⟨hAfter, h.reference, h.profile⟩, ?_⟩
    intro side
    cases side with
    | primary => rfl
    | reference => rfl
  | reference =>
    obtain ⟨hText, hAfter⟩ := textOf_of_steady h.reference root
    have hEncode : (p.encodeReference Clock.tick root).run clock =
        (((encodeToText root step).map some, { p with
          reference := (textOf p.reference root).2
          referenceWatch := p.referenceWatch.timed clock }), clock.later 2) := by
      rw [run_encodeReference, if_neg hTimed, hText]
    refine ⟨_, hEncode, ⟨h.primary, hAfter, h.profile⟩, ?_⟩
    intro side
    cases side with
    | primary => rfl
    | reference => rfl

/-- Calls give the texts of their trees, whatever came before. -/
theorem Ready.performAll (h : p.Ready step) (calls : List Call) (clock : Clock) :
    ∃ q, (p.performAll calls).run clock =
        ((calls.map fun call => (encodeToText call.root step).map some, q),
          clock.later (2 * calls.length)) ∧
      q.Ready step ∧
      ∀ side, (q.watch side).count =
          (p.watch side).count + (calls.countP fun call => call.side = side) ∧
        (q.watch side).total = (p.watch side).total + clock.spent side calls := by
  induction calls generalizing p clock with
  | nil => exact ⟨p, rfl, h, fun side => ⟨(Int.add_zero _).symm, (Int.add_zero _).symm⟩⟩
  | cons call rest ih =>
    obtain ⟨middle, hFirst, hMiddle, hWatch⟩ := h.perform call clock
    obtain ⟨last, hRest, hLast, hSums⟩ := ih hMiddle (clock.later 2)
    refine ⟨last, ?_, hLast, ?_⟩
    · have hReads : 2 + 2 * rest.length = 2 * (call :: rest).length := by
        rw [List.length_cons]
        omega
      rw [Clock.later_later, hReads] at hRest
      rw [Pair.performAll, bind_of_run hFirst, bind_of_run hRest]
      rfl
    · intro side
      obtain ⟨hCount, hTotal⟩ := hSums side
      rw [hWatch side] at hCount hTotal
      rw [List.countP_cons, Clock.spent_cons, hCount, hTotal]
      by_cases hSide : call.side = side
      · simp only [hSide, if_true, decide_true, Stopwatch.timed, Stopwatch.startAt, Stopwatch.stopAt,
          Clock.nextSpan]
        omega
      · simp only [hSide, if_false, decide_false, Bool.false_eq_true]
        omega

/-- A pair that is made for a step, with no profile, and called in any order, also with trees that
cannot be encoded: each call, of either writer, gives the text of its tree for that step, or fails
as the tree does. Each call reads the clock twice, and each stopwatch counts the calls of its writer
and adds up the times between their two readings. -/
theorem performAll_ofStep (step : Int) (clock : Clock) (calls : List Call) :
    let ((answers, p), last) := ((ofStep step none).performAll calls).run clock
    answers = (calls.map fun call => (encodeToText call.root step).map some) ∧
      last = clock.later (2 * calls.length) ∧
      ∀ side, (p.watch side).count = (calls.countP fun call => call.side = side) ∧
        (p.watch side).total = clock.spent side calls := by
  obtain ⟨p, hRun, -, hSums⟩ := (ready_ofStep step).performAll calls clock
  rw [hRun]
  refine ⟨rfl, rfl, ?_⟩
  intro side
  obtain ⟨hCount, hTotal⟩ := hSums side
  have hFresh : (ofStep step none).watch side = {} := by
    cases side with
    | primary => rfl
    | reference => rfl
  rw [hFresh] at hCount hTotal
  exact ⟨hCount.trans (Int.zero_add _), hTotal.trans (Int.zero_add _)⟩

end Pair

end XmlLayout.Timing

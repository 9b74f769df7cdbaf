import XmlLayout.Indent.Slots

/-!
# The row of slots as a finite map

Whatever a row is asked for, and in whatever order: a slot gives the text that was put into it last.
The row gets longer where a slot past its end is filled or where more slots are asked for, and what
is in the slots does not change by that. What is refused leaves the row as it was.

* `lookup_after`, `highest_after`: what is in the slots behind a run, and which is the highest one
  that was ever filled.
* `map_after_replicate`: the answer to each request behind every run of a row of empty slots.
* `not_forall_set_refused`: filling is not refused below the first slot alone. There may be too many
  slots in front of the one that is asked for.
-/

namespace XmlLayout.Indent.Slots

/-! ## Requests -/

inductive Request where
  | get (i : Int)
  | set (i : Int) (text : String)
  | resize (size : Int)

inductive Answer where
  /-- What is in a slot. -/
  | found (text : Option String)
  | done
  | refused (cause : Error)
  deriving DecidableEq

/-- The row that is made of `s`, or why none can be made; then `s` stays as it was. -/
def answered (s : Slots) : Except Error Slots → Answer × Slots
  | .ok t => (.done, t)
  | .error cause => (.refused cause, s)

def perform (s : Slots) : Request → Answer × Slots
  | .get i => (.found (s.lookup i), s)
  | .set i text => s.answered (s.set i text)
  | .resize size => s.answered (s.resize size)

def after (s : Slots) (requests : List Request) : Slots :=
  requests.foldl (fun t r => (t.perform r).2) s

/-- The slot that a request fills, and the text, if the request is to fill one and is not refused. -/
def filled? (s : Slots) : Request → Option (Int × String)
  | .set i text => match s.set i text with
    | .ok _ => some (i, text)
    | .error _ => none
  | _ => none

/-- The slots that a run fills, with their texts, the latest first. -/
def filled (s : Slots) : List Request → List (Int × String)
  | [] => []
  | r :: rest => (s.perform r).2.filled rest ++ (s.filled? r).toList

variable {s t : Slots}

/-! ## Room -/

/-- Why there cannot be so many more slots, if there cannot. -/
theorem countFault?_eq (count : Int) :
    countFault? count =
      if count < -largestLength - 1 ∨ largestLength < count then some .sizeTooLarge
      else if memoryLimit < slotSize * count then some .outOfMemory
      else none := by
  have hWord : (!fitsWord count) = true ↔ count < -largestLength - 1 ∨ largestLength < count := by
    rw [Bool.not_eq_true', ← Bool.not_eq_true, fitsWord_iff]
    omega
  simp only [countFault?, hWord]

/-- What is too long for a machine word is too much for its memory. -/
theorem memoryLimit_lt_of_largestLength_lt {count : Int} (h : largestLength < count) :
    memoryLimit < slotSize * count := by
  have hLess : memoryLimit ≤ slotSize * largestLength := by decide
  have hMore : slotSize * largestLength < slotSize * count :=
    Int.mul_lt_mul_of_pos_left h (by decide)
  omega

theorem set_natCast (s : Slots) (i : Nat) (text : String) :
    s.set i text =
      match if i < s.capacity then none else countFault? (roomFor i - s.capacity) with
      | none => .ok (s.put i text)
      | some cause => .error cause :=
  rfl

theorem eq_put_of_set {i : Int} {text : String} (h : s.set i text = .ok t) :
    ∃ n : Nat, i = n ∧ t = s.put n text := by
  cases i with
  | negSucc n => cases h
  | ofNat n =>
    refine ⟨n, rfl, ?_⟩
    rw [Int.ofNat_eq_natCast, set_natCast] at h
    split at h
    · cases h
      rfl
    · cases h

theorem eq_grow_of_resize {size : Int} (h : s.resize size = .ok t) : t = s.grow size.toNat := by
  unfold resize at h
  split at h
  · cases h
    rfl
  · cases h

/-! ## What is in the slots -/

theorem lookup_put (s : Slots) (i : Nat) (text : String) (j : Int) :
    (s.put i text).lookup j = if j = i then some text else s.lookup j := by
  cases j with
  | negSucc n => rfl
  | ofNat n =>
    have hSame : Int.ofNat n = (i : Int) ↔ n = i := Int.ofNat_inj
    simp only [lookup, get?_put, hSame]

theorem lookup_grow (s : Slots) (size : Nat) (j : Int) : (s.grow size).lookup j = s.lookup j := by
  cases j with
  | negSucc n => rfl
  | ofNat n => exact get?_grow s size n

theorem lookup_eq_none {i : Int} (h : i < 0 ∨ s.capacity ≤ i) : s.lookup i = none := by
  cases i with
  | negSucc n => rfl
  | ofNat n =>
    have hPast : s.cells.size ≤ n := by
      simp only [capacity, Int.ofNat_eq_natCast] at h
      omega
    simp [lookup, get?, Array.getElem?_eq_none hPast]

/-- A request changes what is in the slot that it fills, if it fills one, and in no other. -/
theorem lookup_perform (s : Slots) (r : Request) (j : Int) :
    (s.perform r).2.lookup j = ((s.filled? r).toList.lookup j).or (s.lookup j) := by
  cases r with
  | get i => rfl
  | set i text =>
    simp only [filled?, perform]
    cases hSet : s.set i text with
    | error cause => rfl
    | ok t =>
      obtain ⟨n, rfl, rfl⟩ := eq_put_of_set hSet
      simp only [answered, Option.toList_some, lookup_put]
      by_cases hj : j = n
      · simp [hj]
      · have hBeq : (j == (n : Int)) = false := beq_eq_false_iff_ne.mpr hj
        simp [hj, List.lookup_cons, hBeq]
  | resize size =>
    simp only [filled?, perform]
    cases hResize : s.resize size with
    | error cause => rfl
    | ok t =>
      rw [eq_grow_of_resize hResize]
      exact lookup_grow s size.toNat j

theorem lookup_after (s : Slots) (requests : List Request) (j : Int) :
    (s.after requests).lookup j = ((s.filled requests).lookup j).or (s.lookup j) := by
  induction requests generalizing s with
  | nil => rfl
  | cons r rest ih =>
    rw [filled, List.lookup_append, Option.or_assoc, ← lookup_perform]
    exact ih (s.perform r).2

theorem highest_perform (s : Slots) (r : Request) :
    ((s.perform r).2.highest : Int) =
      ((s.filled? r).toList.map Prod.fst).foldr max (s.highest : Int) := by
  cases r with
  | get i => rfl
  | set i text =>
    simp only [filled?, perform]
    cases hSet : s.set i text with
    | error cause => rfl
    | ok t =>
      obtain ⟨n, rfl, rfl⟩ := eq_put_of_set hSet
      simp only [answered, highest_put, Option.toList_some, List.map_cons, List.map_nil,
        List.foldr_cons, List.foldr_nil]
      omega
  | resize size =>
    simp only [filled?, perform]
    cases hResize : s.resize size with
    | error cause => rfl
    | ok t =>
      rw [eq_grow_of_resize hResize]
      rfl

theorem highest_after (s : Slots) (requests : List Request) :
    ((s.after requests).highest : Int) =
      ((s.filled requests).map Prod.fst).foldr max (s.highest : Int) := by
  induction requests generalizing s with
  | nil => rfl
  | cons r rest ih =>
    rw [filled, List.map_append, List.foldr_append, ← highest_perform]
    exact ih (s.perform r).2

/-! ## Filling and resizing -/

/-- What becomes of a row when a slot is filled. -/
structure Filling (s : Slots) (i : Int) (text : String) (t : Slots) : Prop where
  lookup_self : t.lookup i = some text
  lookup_of_ne : ∀ j, j ≠ i → t.lookup j = s.lookup j
  lt_capacity : i < t.capacity
  capacity_eq : (t.capacity : Int) = if i < s.capacity then (s.capacity : Int) else max (2 * i) 1

theorem filling_put (s : Slots) (i : Nat) (text : String) : Filling s i text (s.put i text) where
  lookup_self := by rw [lookup_put, if_pos rfl]
  lookup_of_ne j hj := by rw [lookup_put, if_neg hj]
  lt_capacity := by
    rw [capacity_put]
    split <;> omega
  capacity_eq := by
    rw [capacity_put]
    have hSame : (i : Int) < s.capacity ↔ i < s.capacity := Int.ofNat_lt
    simp only [hSame]
    split
    · rfl
    · omega

/-- Why there cannot be room for a slot, if there cannot. -/
theorem roomFault?_eq (s : Slots) (i : Nat) :
    (if i < s.capacity then none else countFault? (roomFor i - s.capacity)) =
      if s.capacity ≤ (i : Int) ∧ memoryLimit < slotSize * (max (2 * (i : Int)) 1 - s.capacity) then
        some (if largestLength < max (2 * (i : Int)) 1 - s.capacity then .sizeTooLarge
          else .outOfMemory)
      else none := by
  have hRoom : (roomFor i : Int) = max (2 * (i : Int)) 1 := by
    rw [roomFor]
    omega
  rw [hRoom, countFault?_eq]
  by_cases hIn : i < s.capacity
  · rw [if_pos hIn, if_neg (by omega)]
  · have hPositive : 0 ≤ largestLength := by decide
    have hNotLow : ¬max (2 * (i : Int)) 1 - s.capacity < -largestLength - 1 := by omega
    have hPast : (s.capacity : Int) ≤ i := by omega
    simp only [hIn, if_false, hNotLow, false_or, hPast, true_and]
    by_cases hWord : largestLength < max (2 * (i : Int)) 1 - s.capacity
    · rw [if_pos hWord, if_pos (memoryLimit_lt_of_largestLength_lt hWord), if_pos hWord]
    · rw [if_neg hWord, if_neg hWord]

/-- There can be room for every slot up to this one, however few slots there are. -/
def roomyLimit : Nat := Nat.pow 2 32

theorem set_eq_put (s : Slots) {i : Nat} (h : i ≤ roomyLimit) (text : String) :
    s.set i text = .ok (s.put i text) := by
  have hFits : ¬((s.capacity : Int) ≤ i ∧
      memoryLimit < slotSize * (max (2 * (i : Int)) 1 - s.capacity)) := by
    have hLimit : memoryLimit = slotSize * (2 * (roomyLimit : Int)) := by decide
    have hSome : 1 ≤ roomyLimit := by decide
    rw [hLimit, slotSize]
    omega
  have hRoom := roomFault?_eq s i
  rw [if_neg hFits] at hRoom
  rw [set_natCast, hRoom]

/-- Filling is refused below the first slot, and where there can be no room; else the slot is
filled. -/
theorem perform_set (s : Slots) (i : Int) (text : String) :
    if i < 0 then s.perform (.set i text) = (.refused .negativeSlot, s)
    else if s.capacity ≤ i ∧ memoryLimit < slotSize * (max (2 * i) 1 - s.capacity) then
      s.perform (.set i text) = (.refused
        (if largestLength < max (2 * i) 1 - s.capacity then .sizeTooLarge else .outOfMemory), s)
    else ∃ t, s.perform (.set i text) = (.done, t) ∧ Filling s i text t := by
  cases i with
  | negSucc n =>
    rw [if_pos (Int.negSucc_lt_zero n)]
    rfl
  | ofNat n =>
    rw [Int.ofNat_eq_natCast, if_neg (by omega)]
    have hRoom := roomFault?_eq s n
    split
    · rename_i hFault
      rw [if_pos hFault] at hRoom
      rw [perform, set_natCast, hRoom]
      rfl
    · rename_i hFault
      rw [if_neg hFault] at hRoom
      refine ⟨s.put n text, ?_, filling_put s n text⟩
      rw [perform, set_natCast, hRoom]
      rfl

/-- Resizing is refused where there can be no room, or where there would be far too few slots; else
there are slots enough, and nothing else changes. -/
theorem perform_resize (s : Slots) (n : Int) :
    if n - s.capacity < -largestLength - 1 ∨ largestLength < n - s.capacity then
      s.perform (.resize n) = (.refused .sizeTooLarge, s)
    else if memoryLimit < slotSize * (n - s.capacity) then
      s.perform (.resize n) = (.refused .outOfMemory, s)
    else ∃ t, s.perform (.resize n) = (.done, t) ∧ (t.capacity : Int) = max (s.capacity : Int) n ∧
      t.highest = s.highest ∧ ∀ j, t.lookup j = s.lookup j := by
  have hRoom := countFault?_eq (n - s.capacity)
  split
  · rename_i hWord
    rw [if_pos hWord] at hRoom
    rw [perform, resize, hRoom]
    rfl
  · rename_i hWord
    rw [if_neg hWord] at hRoom
    split
    · rename_i hMemory
      rw [if_pos hMemory] at hRoom
      rw [perform, resize, hRoom]
      rfl
    · rename_i hMemory
      rw [if_neg hMemory] at hRoom
      refine ⟨s.grow n.toNat, ?_, ?_, rfl, lookup_grow s n.toNat⟩
      · rw [perform, resize, hRoom]
        rfl
      · rw [capacity_grow]
        omega

/-! ## Behind a run -/

/-- Each request to a row of slots, behind whatever requests since the row was empty. A slot gives
the text that was put into it last, and there is none where none was put, below the first slot and
past the end in particular; the highest slot is the greatest one ever filled. Filling changes one
slot, and makes the row longer where the slot lies past its end; it is refused below the first slot,
and where there can be no room. Resizing changes no slot, and is refused where there can be no room.
What is refused changes nothing. -/
theorem map_after_replicate (size : Nat) (requests : List Request) :
    let s := (replicate size).after requests
    let entries := (replicate size).filled requests
    (∀ i : Int, s.perform (.get i) = (.found (entries.lookup i), s)) ∧
      (∀ i : Int, i < 0 ∨ s.capacity ≤ i → entries.lookup i = none) ∧
      (s.highest : Int) = (entries.map Prod.fst).foldr max (0 : Int) ∧
      (∀ (i : Int) (text : String),
        if i < 0 then s.perform (.set i text) = (.refused .negativeSlot, s)
        else if s.capacity ≤ i ∧ memoryLimit < slotSize * (max (2 * i) 1 - s.capacity) then
          s.perform (.set i text) = (.refused
            (if largestLength < max (2 * i) 1 - s.capacity then .sizeTooLarge else .outOfMemory), s)
        else ∃ t, s.perform (.set i text) = (.done, t) ∧ Filling s i text t) ∧
      ∀ n : Int,
        if n - s.capacity < -largestLength - 1 ∨ largestLength < n - s.capacity then
          s.perform (.resize n) = (.refused .sizeTooLarge, s)
        else if memoryLimit < slotSize * (n - s.capacity) then
          s.perform (.resize n) = (.refused .outOfMemory, s)
        else ∃ t, s.perform (.resize n) = (.done, t) ∧
          (t.capacity : Int) = max (s.capacity : Int) n ∧ t.highest = s.highest ∧
          ∀ j, t.lookup j = s.lookup j := by
  intro s entries
  have hEmpty (i : Int) : (replicate size).lookup i = none := by
    cases i with
    | negSucc n => rfl
    | ofNat n => exact get?_replicate size n
  have hLookup (i : Int) : s.lookup i = entries.lookup i := by
    rw [lookup_after, hEmpty, Option.or_none]
  refine ⟨?_, ?_, highest_after (replicate size) requests, perform_set s, perform_resize s⟩
  · intro i
    rw [perform, hLookup]
  · intro i hOut
    rw [← hLookup]
    exact lookup_eq_none hOut

example : (replicate 0).filled [.set 0 "a", .set 7 "b", .set (-1) "c", .resize (-3), .set 7 "d"] =
    [(7, "d"), (7, "b"), (0, "a")] := by
  decide +kernel

/-- Filling is not refused below the first slot alone: there may be more slots in front of the one
that is asked for than there can be. -/
theorem not_forall_set_refused :
    ¬∀ (size : Nat) (i : Int) (text : String) (cause : Error),
      ((replicate size).perform (.set i text)).1 = .refused cause → i < 0 := by
  intro h
  have hRefused : ((replicate 0).perform (.set (2 ^ 63) "")).1 = .refused .sizeTooLarge := by
    decide +kernel
  exact absurd (h 0 (2 ^ 63) "" _ hRefused) (by decide)

end XmlLayout.Indent.Slots

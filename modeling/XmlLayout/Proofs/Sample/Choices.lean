import XmlLayout.Sample.Draws

/-!
# What is made by choices

`Makes x P` says that `x` never fails, and that it makes exactly the things with the property `P`:
each of them is made from some numbers, whatever numbers come behind them. The property of what is
made in steps is put together from those of the steps (`Makes.bind`), so that nothing has to be said
twice, once for what can come out and once for what does. Where `x` may fail, `MakesOnly x P` says
what there is if it does not.

* `makes_draw`, `makes_choose`, `makes_repeatedly`: the ways to choose.
* `MakesOnly.bind`, `MakesOnly.repeatedly`: the same where something may fail.
-/

namespace XmlLayout.Sample

/-- The sequence without some more of its numbers. -/
def Draws.skip (d : Draws) (n : Nat) : Draws :=
  { d with used := d.used + n }

/-- The next numbers of a sequence. -/
def Draws.Begins (d : Draws) (numbers : List Int) : Prop :=
  ∀ i n, numbers[i]? = some n → d.number (d.used + i) = n

theorem Draws.begins_append {d : Draws} {numbers others : List Int}
    (h : d.Begins (numbers ++ others)) :
    d.Begins numbers ∧ (d.skip numbers.length).Begins others := by
  constructor
  · intro i n hi
    obtain ⟨hLess, -⟩ := List.getElem?_eq_some_iff.mp hi
    exact h i n (by rw [List.getElem?_append_left hLess, hi])
  · intro i n hi
    have hNext := h (numbers.length + i) n
      (by rw [List.getElem?_append_right (Nat.le_add_right _ _), Nat.add_sub_cancel_left, hi])
    rw [← Nat.add_assoc] at hNext
    exact hNext

theorem Draws.begins_cycle (numbers : List Int) : (cycle numbers.toArray).Begins numbers := by
  intro i n hi
  obtain ⟨hLess, rfl⟩ := List.getElem?_eq_some_iff.mp hi
  simp [cycle, Nat.mod_eq_of_lt hLess, hLess]

/-- `x` makes the things with the property `P`, and nothing else. -/
structure Makes {α : Type} (x : Sampling α) (P : α → Prop) : Prop where
  sound : ∀ d, ∃ a e, x d = .ok a e ∧ P a
  complete : ∀ a, P a → ∃ numbers : List Int, ∀ d : Draws, d.Begins numbers →
    x d = .ok a (d.skip numbers.length)

variable {α β : Type} {x : Sampling α} {f : α → Sampling β} {P Q : α → Prop}

theorem Makes.congr (h : Makes x P) (hPQ : ∀ a, P a ↔ Q a) : Makes x Q where
  sound d := by
    obtain ⟨a, e, hRun, hP⟩ := h.sound d
    exact ⟨a, e, hRun, (hPQ a).mp hP⟩
  complete a hQ := h.complete a ((hPQ a).mpr hQ)

theorem makes_pure (a : α) : Makes (pure a) (· = a) where
  sound d := ⟨a, d, rfl, rfl⟩
  complete := by
    rintro b rfl
    exact ⟨[], fun d _ => rfl⟩

theorem bind_of_made {d e : Draws} {a : α} (h : x d = .ok a e) : (x >>= f) d = f a e := by
  simp only [bind, EStateM.bind, h]

theorem bind_of_failed {d e : Draws} {cause : Error} (h : x d = .error cause e) :
    (x >>= f) d = .error cause e := by
  simp only [bind, EStateM.bind, h]

theorem exists_cons_of_repeatedly {n : Nat} {d e : Draws} {items : List α}
    (h : repeatedly x (n + 1) d = .ok items e) :
    ∃ a rest d', x d = .ok a d' ∧ repeatedly x n d' = .ok rest e ∧ items = a :: rest := by
  rw [repeatedly] at h
  cases hFirst : x d with
  | error cause d' =>
    rw [bind_of_failed hFirst] at h
    cases h
  | ok a d' =>
    rw [bind_of_made hFirst] at h
    cases hRest : repeatedly x n d' with
    | error cause d'' =>
      rw [bind_of_failed hRest] at h
      cases h
    | ok rest d'' =>
      rw [bind_of_made hRest] at h
      cases h
      exact ⟨a, rest, d', rfl, hRest, rfl⟩

theorem Makes.bind {R : α → β → Prop} (hx : Makes x P) (hf : ∀ a, P a → Makes (f a) (R a)) :
    Makes (x >>= f) (fun b => ∃ a, P a ∧ R a b) where
  sound d := by
    obtain ⟨a, e, hRun, hP⟩ := hx.sound d
    obtain ⟨b, e', hNext, hR⟩ := (hf a hP).sound e
    exact ⟨b, e', (bind_of_made hRun).trans hNext, a, hP, hR⟩
  complete := by
    rintro b ⟨a, hP, hR⟩
    obtain ⟨numbers, hRun⟩ := hx.complete a hP
    obtain ⟨others, hNext⟩ := (hf a hP).complete b hR
    refine ⟨numbers ++ others, fun d hBegins => ?_⟩
    obtain ⟨hFirst, hOthers⟩ := Draws.begins_append hBegins
    rw [bind_of_made (hRun d hFirst), hNext _ hOthers, Draws.skip, Draws.skip, Draws.skip,
      List.length_append, Nat.add_assoc]

theorem Makes.map {R : β → Prop} {g : α → β} (hx : Makes x P)
    (hR : ∀ b, R b ↔ ∃ a, P a ∧ b = g a) : Makes (g <$> x) R := by
  have hBind : g <$> x = x >>= fun a => pure (g a) := by
    funext d
    simp only [Functor.map, EStateM.map, Bind.bind, EStateM.bind, Pure.pure, EStateM.pure]
  rw [hBind]
  exact (hx.bind fun a _ => makes_pure (g a)).congr fun b => (hR b).symm

theorem Makes.dite {c : Prop} [Decidable c] {y : c → Sampling α} {z : ¬c → Sampling α}
    (hy : ∀ h, Makes (y h) P) (hz : ∀ h, Makes (z h) Q) :
    Makes (if h : c then y h else z h) (fun a => c ∧ P a ∨ ¬c ∧ Q a) := by
  by_cases hc : c
  · rw [dif_pos hc]
    exact (hy hc).congr fun a => by simp [hc]
  · rw [dif_neg hc]
    exact (hz hc).congr fun a => by simp [hc]

theorem makes_draw (n : Nat) (hn : 0 < n) : Makes (draw n hn) (fun _ => True) where
  sound d := ⟨_, _, rfl, trivial⟩
  complete k _ := by
    refine ⟨[k], fun d hBegins => ?_⟩
    have hNumber : d.number d.used = k := hBegins 0 k rfl
    have hLess : ((k : Nat) : Int) % n = k :=
      Int.emod_eq_of_lt (Int.natCast_nonneg _) (Int.ofNat_lt.mpr k.isLt)
    have hDrawn : draw n hn d = .ok ⟨(d.number d.used % (n : Int)).toNat, _⟩ (d.skip 1) := rfl
    rw [hDrawn]
    congr 1
    apply Fin.ext
    change (d.number d.used % (n : Int)).toNat = k
    rw [hNumber, hLess, Int.toNat_natCast]

theorem makes_below {n : Int} (hn : 0 < n) : Makes (below n) (fun _ => True) := by
  unfold below
  rw [dif_pos hn]
  refine ((makes_draw n.toNat (by omega)).bind fun k _ => makes_pure _).congr ?_
  rintro ⟨k, hk⟩
  refine ⟨fun _ => trivial, fun _ => ?_⟩
  exact ⟨⟨k, by omega⟩, trivial, rfl⟩

theorem makes_choose (items : List α) (h : 0 < items.length) :
    Makes (choose items h) (· ∈ items) := by
  refine ((makes_draw items.length h).bind fun i _ => makes_pure items[i]).congr fun a => ?_
  constructor
  · rintro ⟨i, -, rfl⟩
    exact List.getElem_mem i.isLt
  · intro ha
    obtain ⟨i, hi, rfl⟩ := List.mem_iff_getElem.mp ha
    exact ⟨⟨i, hi⟩, trivial, rfl⟩

theorem makes_repeatedly (h : Makes x P) (n : Nat) :
    Makes (repeatedly x n) (fun items => items.length = n ∧ ∀ a ∈ items, P a) := by
  induction n with
  | zero =>
    refine (makes_pure []).congr fun items => ?_
    constructor
    · rintro rfl
      exact ⟨rfl, fun a ha => absurd ha List.not_mem_nil⟩
    · rintro ⟨hLength, -⟩
      exact List.length_eq_zero_iff.mp hLength
  | succ n ih =>
    refine (h.bind fun a _ => ih.bind fun rest _ => makes_pure (a :: rest)).congr fun items => ?_
    constructor
    · rintro ⟨a, ha, rest, ⟨hLength, hRest⟩, rfl⟩
      exact ⟨by rw [List.length_cons, hLength], List.forall_mem_cons.mpr ⟨ha, hRest⟩⟩
    · rintro ⟨hLength, hAll⟩
      cases items with
      | nil => cases hLength
      | cons a rest =>
        obtain ⟨ha, hRest⟩ := List.forall_mem_cons.mp hAll
        exact ⟨a, ha, rest, ⟨Nat.succ.inj hLength, hRest⟩, rfl⟩

/-! ## Where something may fail -/

/-- If `x` makes anything, then that has the property `P`. -/
def MakesOnly (x : Sampling α) (P : α → Prop) : Prop :=
  ∀ d a e, x d = .ok a e → P a

theorem Makes.makesOnly (h : Makes x P) : MakesOnly x P := by
  intro d a e hRun
  obtain ⟨made, after, hMade, hP⟩ := h.sound d
  cases hRun.symm.trans hMade
  exact hP

theorem makesOnly_pure {a : α} (h : P a) : MakesOnly (pure a) P := by
  intro d b e hRun
  cases hRun
  exact h

theorem MakesOnly.bind {R : β → Prop} (hx : MakesOnly x P) (hf : ∀ a, P a → MakesOnly (f a) R) :
    MakesOnly (x >>= f) R := by
  intro d b e hRun
  cases hFirst : x d with
  | error cause d' =>
    rw [bind_of_failed hFirst] at hRun
    cases hRun
  | ok a d' =>
    rw [bind_of_made hFirst] at hRun
    exact hf a (hx d a d' hFirst) d' b e hRun

theorem MakesOnly.repeatedly (h : MakesOnly x P) (n : Nat) :
    MakesOnly (repeatedly x n) (fun items => items.length = n ∧ ∀ a ∈ items, P a) := by
  induction n with
  | zero => exact makesOnly_pure ⟨rfl, fun a ha => absurd ha List.not_mem_nil⟩
  | succ n ih =>
    rw [Sample.repeatedly]
    refine h.bind fun a ha => ih.bind fun rest hRest => makesOnly_pure ⟨?_, ?_⟩
    · rw [List.length_cons, hRest.1]
    · exact List.forall_mem_cons.mpr ⟨ha, hRest.2⟩

end XmlLayout.Sample

import XmlLayout.Text.Integer

/-!
# The integers that are read

The grammar of the integers that the program reads, beside the function that reads them. White space
stands around a number, and a sign in front of it. Then there may be zeros and underscores that do
not count; behind them the minus sign may stand as well, if there was none in front. The digits that
count may have single underscores between them, and a fraction of zeros ends the number.

* `Grouped`, `IsMagnitude`: the digits that count.
* `IsPlain`, `Unsigned`, `Signed`, `IsNumeral`: the grammar.
* `integer?_eq_some_iff`: what is read are the numbers of the grammar.
* `integer?_of_isDecimal`, `integer?_of_isNoInteger`: decimal integers are read, some texts never.
-/

namespace XmlLayout.Text

variable {text core digits : List Char} {values : List Nat} {n : Nat}

/-! ## Digits -/

theorem digitValue?_eq_some_iff {c : Char} {value : Nat} :
    digitValue? c = some value ↔ c.isDigit = true ∧ value = c.toNat - '0'.toNat := by
  unfold digitValue?
  split
  · rename_i hDigit
    rw [Option.some_inj, eq_comm, and_iff_right hDigit]
  · rename_i hOther
    exact iff_of_false nofun fun hDigit => hOther hDigit.1

/-- Digits with single underscores between them, and their values. -/
inductive Grouped : List Char → List Nat → Prop
  | last {c : Char} {value : Nat} (h : digitValue? c = some value) : Grouped [c] [value]
  | next {c : Char} {value : Nat} {text : List Char} {values : List Nat}
      (h : digitValue? c = some value) (rest : Grouped text values) :
      Grouped (c :: text) (value :: values)
  | apart {c : Char} {value : Nat} {text : List Char} {values : List Nat}
      (h : digitValue? c = some value) (rest : Grouped text values) :
      Grouped (c :: '_' :: text) (value :: values)

namespace Grouped

theorem exists_cons (h : Grouped text values) :
    ∃ c rest, text = c :: rest ∧ c.isDigit = true := by
  cases h with
  | last hDigit => exact ⟨_, _, rfl, (digitValue?_eq_some_iff.mp hDigit).1⟩
  | next hDigit rest => exact ⟨_, _, rfl, (digitValue?_eq_some_iff.mp hDigit).1⟩
  | apart hDigit rest => exact ⟨_, _, rfl, (digitValue?_eq_some_iff.mp hDigit).1⟩

theorem isDigit_or_eq (h : Grouped text values) : ∀ c ∈ text, c.isDigit = true ∨ c = '_' := by
  induction h with
  | last hDigit =>
    rw [List.forall_mem_singleton]
    exact Or.inl (digitValue?_eq_some_iff.mp hDigit).1
  | next hDigit rest ih =>
    rw [List.forall_mem_cons]
    exact ⟨Or.inl (digitValue?_eq_some_iff.mp hDigit).1, ih⟩
  | apart hDigit rest ih =>
    rw [List.forall_mem_cons, List.forall_mem_cons]
    exact ⟨Or.inl (digitValue?_eq_some_iff.mp hDigit).1, Or.inr rfl, ih⟩

end Grouped

theorem digitValues?_cons_of_ne {c d : Char} {rest : List Char} (h : d ≠ '_') :
    digitValues? (c :: d :: rest) =
      (digitValue? c).bind fun value =>
        (digitValues? (d :: rest)).bind fun values => some (value :: values) := by
  rw [digitValues?]
  · rfl
  · intro hSame
    exact h hSame

theorem digitValues?_eq_some_iff : digitValues? text = some values ↔ Grouped text values := by
  constructor
  · intro h
    induction text using digitValues?.induct generalizing values with
    | case1 => cases h
    | case2 c =>
      obtain ⟨value, hDigit, rfl⟩ := Option.map_eq_some_iff.mp h
      exact .last hDigit
    | case3 c rest ih =>
      obtain ⟨value, hDigit, hRest⟩ := Option.bind_eq_some_iff.mp h
      obtain ⟨others, hOthers, hSame⟩ := Option.bind_eq_some_iff.mp hRest
      cases hSame
      exact .apart hDigit (ih hOthers)
    | case4 c d rest hOther ih =>
      rw [digitValues?_cons_of_ne (by simpa using hOther)] at h
      obtain ⟨value, hDigit, hRest⟩ := Option.bind_eq_some_iff.mp h
      obtain ⟨others, hOthers, hSame⟩ := Option.bind_eq_some_iff.mp hRest
      cases hSame
      exact .next hDigit (ih hOthers)
  · intro h
    induction h with
    | last hDigit => rw [digitValues?, hDigit, Option.map_some]
    | next hDigit rest ih =>
      obtain ⟨d, more, rfl, hNext⟩ := rest.exists_cons
      have hOther : d ≠ '_' := by
        rintro rfl
        cases hNext
      rw [digitValues?_cons_of_ne hOther, hDigit, ih]
      rfl
    | apart hDigit rest ih =>
      rw [digitValues?, hDigit, ih]
      rfl

/-- Digits that are read as a number; the first is no zero, unless it is the only one. -/
def IsMagnitude (digits : List Char) (n : Nat) : Prop :=
  ∃ values, Grouped digits values ∧ values.length ≤ digitLimit ∧ ofDigits values = n ∧
    (digits.head? = some '0' → digits = ['0'])

theorem natural?_eq_some_iff :
    natural? text = some n ↔
      ∃ values, Grouped text values ∧ values.length ≤ digitLimit ∧ ofDigits values = n := by
  unfold natural?
  constructor
  · intro h
    split at h
    · rename_i values hValues
      split at h
      · rename_i hLength
        exact ⟨values, digitValues?_eq_some_iff.mp hValues, hLength, Option.some.inj h⟩
      · cases h
    · cases h
  · rintro ⟨values, hGrouped, hLength, rfl⟩
    rw [digitValues?_eq_some_iff.mpr hGrouped]
    exact if_pos hLength

/-! ## Zeros at the start and in the fraction -/

/-- Nothing, or a zero with zeros and underscores behind it. -/
def IsStart (start : List Char) : Prop :=
  start = [] ∨ ∃ idle, start = '0' :: idle ∧ ∀ c ∈ idle, c = '0' ∨ c = '_'

/-- Nothing, or a point with zeros behind it. -/
def IsFraction (fraction : List Char) : Prop :=
  fraction = [] ∨ ∃ zeros, zeros ≠ [] ∧ fraction = '.' :: zeros ∧ ∀ c ∈ zeros, c = '0'

theorem isZeroFraction_eq_true_iff {fraction : List Char} :
    isZeroFraction fraction = true ↔ IsFraction fraction := by
  cases fraction with
  | nil => exact iff_of_true rfl (Or.inl rfl)
  | cons point zeros =>
    rw [isZeroFraction, Bool.and_eq_true, Bool.and_eq_true, decide_eq_true_eq, decide_eq_true_eq,
      List.all_eq_true]
    constructor
    · rintro ⟨⟨rfl, hSome⟩, hZeros⟩
      exact Or.inr ⟨zeros, hSome, rfl, fun c hc => of_decide_eq_true (hZeros c hc)⟩
    · rintro (hNone | ⟨others, hSome, hSame, hZeros⟩)
      · cases hNone
      · cases hSame
        exact ⟨⟨rfl, hSome⟩, fun c hc => decide_eq_true (hZeros c hc)⟩

/-- A text is cut at its first point. -/
theorem whole?_eq_some_iff :
    whole? text = some core ↔
      ∃ fraction, text = core ++ fraction ∧ '.' ∉ core ∧ IsFraction fraction := by
  unfold whole?
  constructor
  · intro h
    split at h
    · rename_i hFraction
      cases h
      refine ⟨text.dropWhile (· ≠ '.'), List.takeWhile_append_dropWhile.symm, ?_,
        isZeroFraction_eq_true_iff.mp hFraction⟩
      intro hPoint
      exact of_decide_eq_true (List.all_eq_true.mp List.all_takeWhile '.' hPoint) rfl
    · cases h
  · rintro ⟨fraction, rfl, hCore, hFraction⟩
    have hBefore : ∀ c ∈ core, decide (c ≠ '.') = true := by
      intro c hc
      refine decide_eq_true fun hPoint => hCore ?_
      rw [← hPoint]
      exact hc
    have hCut : fraction.takeWhile (· ≠ '.') = [] ∧ fraction.dropWhile (· ≠ '.') = fraction := by
      rcases hFraction with rfl | ⟨zeros, -, rfl, -⟩
      · exact ⟨rfl, rfl⟩
      · exact ⟨rfl, rfl⟩
    rw [List.dropWhile_append_of_pos hBefore, List.takeWhile_append_of_pos hBefore, hCut.1, hCut.2,
      if_pos (isZeroFraction_eq_true_iff.mpr hFraction), List.append_nil]

/-- What may stand behind the zeros at the start: a digit that counts, the minus sign if there are
zeros in front of it, or a zero that is left of them. -/
def Follows (start core : List Char) : Prop :=
  ∃ c rest, core = c :: rest ∧ (c.isDigit = true ∧ c ≠ '0' ∨ c = '-' ∧ start ≠ [] ∨
    c = '0' ∧ (rest = [] ∨ ∃ more, rest = '.' :: more))

def isIdle (c : Char) : Bool :=
  c = '0' || c = '_'

theorem isIdle_eq_true_iff {c : Char} : isIdle c = true ↔ c = '0' ∨ c = '_' := by
  rw [isIdle, Bool.or_eq_true, decide_eq_true_eq, decide_eq_true_eq]

/-- The last of the zeros at the start may be taken for the number. -/
theorem exists_start_of_getLast {idle : List Char} (hIdle : ∀ c ∈ idle, isIdle c = true)
    (hLast : ('0' :: idle).getLast? = some '0') :
    ∃ start, '0' :: idle = start ++ ['0'] ∧ IsStart start := by
  obtain ⟨start, hStart⟩ := List.getLast?_eq_some_iff.mp hLast
  refine ⟨start, hStart, ?_⟩
  cases start with
  | nil => exact Or.inl rfl
  | cons c rest =>
    obtain ⟨rfl, rfl⟩ := List.cons.inj hStart
    refine Or.inr ⟨rest, rfl, fun d hd => isIdle_eq_true_iff.mp (hIdle d ?_)⟩
    exact List.mem_append_left _ hd

theorem withoutZeros?_cons_of_ne {c : Char} {rest : List Char} (h : c ≠ '0') :
    withoutZeros? (c :: rest) = if c.isDigit then some (c :: rest) else none := by
  rw [withoutZeros?, if_pos h]

theorem withoutZeros?_zero (rest : List Char) :
    withoutZeros? ('0' :: rest) = match rest.dropWhile isIdle with
      | [] => if ('0' :: rest).getLast? = some '0' then some ['0'] else none
      | next :: more =>
        if next = '.' then
          if ('0' :: rest.takeWhile isIdle).getLast? = some '0' then some ('0' :: next :: more)
          else none
        else if next = '-' ∨ next.isDigit then some (next :: more)
        else none := by
  rw [withoutZeros?, if_neg (not_not_intro rfl)]
  rfl

/-- Where the number ends behind its zeros, or its fraction begins, the last zero is left. -/
theorem withoutZeros?_of_ends {idle tail : List Char} (hIdle : ∀ c ∈ idle, isIdle c = true)
    (hTail : tail = [] ∨ ∃ more, tail = '.' :: more) :
    withoutZeros? ('0' :: idle ++ tail) =
      if ('0' :: idle).getLast? = some '0' then some ('0' :: tail) else none := by
  rw [List.cons_append, withoutZeros?_zero, List.dropWhile_append_of_pos hIdle,
    List.takeWhile_append_of_pos hIdle]
  rcases hTail with rfl | ⟨more, rfl⟩
  · rw [List.append_nil]
    rfl
  · have hCut : ('.' :: more).dropWhile isIdle = '.' :: more ∧ ('.' :: more).takeWhile isIdle = [] :=
      ⟨rfl, rfl⟩
    rw [hCut.1, hCut.2, List.append_nil]
    exact if_pos rfl

theorem withoutZeros?_of_next {idle more : List Char} {next : Char}
    (hIdle : ∀ c ∈ idle, isIdle c = true) (hNext : isIdle next = false) (hPoint : next ≠ '.') :
    withoutZeros? ('0' :: idle ++ next :: more) =
      if next = '-' ∨ next.isDigit then some (next :: more) else none := by
  have hCut : (next :: more).dropWhile isIdle = next :: more :=
    List.dropWhile_cons_of_neg (Bool.eq_false_iff.mp hNext)
  rw [List.cons_append, withoutZeros?_zero, List.dropWhile_append_of_pos hIdle, hCut]
  exact if_neg hPoint

theorem exists_of_withoutZeros? (h : withoutZeros? text = some core) :
    ∃ start, text = start ++ core ∧ IsStart start ∧ Follows start core := by
  cases text with
  | nil => cases h
  | cons c rest =>
    by_cases hZero : c = '0'
    · subst hZero
      have hIdle : ∀ d ∈ rest.takeWhile isIdle, isIdle d = true :=
        List.all_eq_true.mp List.all_takeWhile
      have hRest : '0' :: rest = '0' :: rest.takeWhile isIdle ++ rest.dropWhile isIdle := by
        rw [List.cons_append, List.takeWhile_append_dropWhile]
      have hStops := List.head?_dropWhile_not isIdle rest
      rw [hRest] at h ⊢
      generalize rest.takeWhile isIdle = idle at h hIdle ⊢
      generalize rest.dropWhile isIdle = tail at h hStops ⊢
      by_cases hEnds : tail = [] ∨ ∃ more, tail = '.' :: more
      · rw [withoutZeros?_of_ends hIdle hEnds] at h
        split at h
        · rename_i hLast
          cases h
          obtain ⟨start, hStart, hIsStart⟩ := exists_start_of_getLast hIdle hLast
          refine ⟨start, ?_, hIsStart, '0', tail, rfl, Or.inr (Or.inr ⟨rfl, hEnds⟩)⟩
          rw [hStart, List.append_assoc]
          rfl
        · cases h
      · cases tail with
        | nil => exact absurd (Or.inl rfl) hEnds
        | cons next more =>
          have hPoint : next ≠ '.' := by
            rintro rfl
            exact hEnds (Or.inr ⟨more, rfl⟩)
          have hNext : isIdle next = false := by simpa using hStops
          rw [withoutZeros?_of_next hIdle hNext hPoint] at h
          split at h
          · rename_i hKind
            cases h
            refine ⟨'0' :: idle, rfl, Or.inr ⟨idle, rfl, fun d hd => ?_⟩, next, more, rfl, ?_⟩
            · exact isIdle_eq_true_iff.mp (hIdle d hd)
            · rcases hKind with hMinus | hDigit
              · exact Or.inr (Or.inl ⟨hMinus, List.cons_ne_nil _ _⟩)
              · refine Or.inl ⟨hDigit, ?_⟩
                rintro rfl
                cases hNext
          · cases h
    · rw [withoutZeros?_cons_of_ne hZero] at h
      split at h
      · rename_i hDigit
        cases h
        exact ⟨[], rfl, Or.inl rfl, c, rest, rfl, Or.inl ⟨hDigit, hZero⟩⟩
      · cases h

theorem exists_idle_of_start {start : List Char} (h : IsStart start) :
    ∃ idle, start ++ ['0'] = '0' :: idle ∧ ∀ c ∈ idle, isIdle c = true := by
  rcases h with rfl | ⟨idle, rfl, hIdle⟩
  · exact ⟨[], rfl, nofun⟩
  · refine ⟨idle ++ ['0'], rfl, ?_⟩
    rw [List.forall_mem_append, List.forall_mem_singleton]
    exact ⟨fun c hc => isIdle_eq_true_iff.mpr (hIdle c hc), rfl⟩

theorem withoutZeros?_of_follows {start : List Char} (hStart : IsStart start)
    (h : Follows start core) : withoutZeros? (start ++ core) = some core := by
  obtain ⟨c, rest, rfl, hFollows⟩ := h
  by_cases hZero : c = '0'
  · subst hZero
    have hEnds : rest = [] ∨ ∃ more, rest = '.' :: more := by simpa using hFollows
    obtain ⟨idle, hSame, hIdle⟩ := exists_idle_of_start hStart
    have hText : start ++ '0' :: rest = '0' :: idle ++ rest := by
      rw [← hSame, List.append_assoc]
      rfl
    have hLast : ('0' :: idle).getLast? = some '0' := by rw [← hSame, List.getLast?_concat]
    rw [hText, withoutZeros?_of_ends hIdle hEnds, if_pos hLast]
  · have hKind : c = '-' ∧ start ≠ [] ∨ c.isDigit = true := by
      rcases hFollows with ⟨hDigit, -⟩ | hMinus | ⟨hSame, -⟩
      · exact Or.inr hDigit
      · exact Or.inl hMinus
      · exact absurd hSame hZero
    rcases hStart with rfl | ⟨idle, rfl, hIdle⟩
    · have hDigit : c.isDigit = true := hKind.resolve_left fun hMinus => hMinus.2 rfl
      rw [List.nil_append, withoutZeros?_cons_of_ne hZero, if_pos hDigit]
    · have hOther : c ≠ '_' ∧ c ≠ '.' := by
        constructor
        · rintro rfl
          simp at hKind
        · rintro rfl
          simp at hKind
      have hNext : isIdle c = false := by
        rw [Bool.eq_false_iff, Ne, isIdle_eq_true_iff, not_or]
        exact ⟨hZero, hOther.1⟩
      rw [withoutZeros?_of_next (fun d hd => isIdle_eq_true_iff.mpr (hIdle d hd)) hNext hOther.2,
        if_pos (hKind.imp_left And.left)]

/-- What is left of a number without the zeros at its start and its fraction. -/
def Counts (start core : List Char) : Prop :=
  ∃ c rest, core = c :: rest ∧
    (c.isDigit = true ∧ c ≠ '0' ∨ c = '-' ∧ start ≠ [] ∨ c = '0' ∧ rest = [])

theorem follows_append_iff {start fraction : List Char} (hCore : '.' ∉ core)
    (hFraction : IsFraction fraction) : Follows start (core ++ fraction) ↔ Counts start core := by
  have hEnds : fraction = [] ∨ ∃ more, fraction = '.' :: more :=
    hFraction.imp_right fun ⟨zeros, _, hSame, _⟩ => ⟨zeros, hSame⟩
  cases core with
  | nil =>
    refine iff_of_false ?_ nofun
    rintro ⟨c, rest, hSame, hFollows⟩
    rcases hEnds with rfl | ⟨more, rfl⟩
    · cases hSame
    · cases hSame
      simp at hFollows
  | cons c rest =>
    have hRest : (rest ++ fraction = [] ∨ ∃ more, rest ++ fraction = '.' :: more) ↔ rest = [] := by
      cases rest with
      | nil => exact iff_of_true hEnds rfl
      | cons d more =>
        refine iff_of_false ?_ (List.cons_ne_nil _ _)
        rintro (hNone | ⟨others, hSame⟩)
        · cases hNone
        · cases hSame
          exact hCore (List.mem_cons_of_mem _ List.mem_cons_self)
    rw [List.cons_append]
    constructor
    · rintro ⟨d, others, hSame, hFollows⟩
      cases hSame
      rw [hRest] at hFollows
      exact ⟨c, rest, rfl, hFollows⟩
    · rintro ⟨d, others, hSame, hCounts⟩
      cases hSame
      rw [← hRest] at hCounts
      exact ⟨c, rest ++ fraction, rfl, hCounts⟩

/-- The zeros at the start come off first, then the fraction. -/
theorem bind_whole?_eq_some_iff :
    (withoutZeros? text).bind whole? = some core ↔
      ∃ start fraction, text = start ++ core ++ fraction ∧ IsStart start ∧ IsFraction fraction ∧
        '.' ∉ core ∧ Counts start core := by
  constructor
  · intro h
    obtain ⟨rest, hRest, hWhole⟩ := Option.bind_eq_some_iff.mp h
    obtain ⟨start, rfl, hStart, hFollows⟩ := exists_of_withoutZeros? hRest
    obtain ⟨fraction, rfl, hCore, hFraction⟩ := whole?_eq_some_iff.mp hWhole
    exact ⟨start, fraction, (List.append_assoc _ _ _).symm, hStart, hFraction, hCore,
      (follows_append_iff hCore hFraction).mp hFollows⟩
  · rintro ⟨start, fraction, rfl, hStart, hFraction, hCore, hCounts⟩
    have hFollows := (follows_append_iff hCore hFraction).mpr hCounts
    rw [List.append_assoc, withoutZeros?_of_follows hStart hFollows]
    exact whole?_eq_some_iff.mpr ⟨fraction, rfl, hCore, hFraction⟩

/-! ## Numbers -/

theorem IsMagnitude.exists_cons (h : IsMagnitude digits n) :
    ∃ c rest, digits = c :: rest ∧ c.isDigit = true := by
  obtain ⟨values, hGrouped, -⟩ := h
  exact hGrouped.exists_cons

theorem IsMagnitude.isDigit_or_eq (h : IsMagnitude digits n) :
    ∀ c ∈ digits, c.isDigit = true ∨ c = '_' := by
  obtain ⟨values, hGrouped, -⟩ := h
  exact hGrouped.isDigit_or_eq

theorem IsMagnitude.not_mem_point (h : IsMagnitude digits n) : '.' ∉ digits := by
  intro hPoint
  have hKind := h.isDigit_or_eq '.' hPoint
  simp at hKind

theorem IsMagnitude.counts (h : IsMagnitude digits n) (start : List Char) :
    Counts start digits := by
  obtain ⟨c, rest, rfl, hDigit⟩ := h.exists_cons
  obtain ⟨values, -, -, -, hZero⟩ := h
  refine ⟨c, rest, rfl, ?_⟩
  by_cases hFirst : c = '0'
  · subst hFirst
    exact Or.inr (Or.inr ⟨rfl, (List.cons.inj (hZero rfl)).2⟩)
  · exact Or.inl ⟨hDigit, hFirst⟩

theorem IsMagnitude.natural? (h : IsMagnitude digits n) : natural? digits = some n := by
  obtain ⟨values, hGrouped, hLength, hValue, -⟩ := h
  exact natural?_eq_some_iff.mpr ⟨values, hGrouped, hLength, hValue⟩

theorem isMagnitude_of_natural? (h : natural? digits = some n)
    (hZero : digits.head? = some '0' → digits = ['0']) : IsMagnitude digits n := by
  obtain ⟨values, hGrouped, hLength, hValue⟩ := natural?_eq_some_iff.mp h
  exact ⟨values, hGrouped, hLength, hValue, hZero⟩

theorem eq_of_counts {start : List Char} (h : Counts start digits)
    (hZero : digits.head? = some '0') : digits = ['0'] := by
  obtain ⟨c, rest, rfl, hCounts⟩ := h
  cases hZero
  simpa using hCounts

/-- A number without a sign: zeros at the start, digits, and a fraction of zeros. -/
def IsPlain (text : List Char) (n : Nat) : Prop :=
  ∃ start digits fraction, text = start ++ digits ++ fraction ∧ IsStart start ∧
    IsMagnitude digits n ∧ IsFraction fraction

/-- A number without a sign in front; behind zeros there may be one. -/
inductive Unsigned : List Char → Int → Prop
  | plain {text : List Char} {n : Nat} (h : IsPlain text n) : Unsigned text n
  | late {start gap digits fraction : List Char} {n : Nat} (hStart : IsStart start)
      (hSome : start ≠ []) (hGap : gap = [] ∨ gap = ['_']) (h : IsMagnitude digits n)
      (hFraction : IsFraction fraction) :
      Unsigned (start ++ '-' :: (gap ++ digits) ++ fraction) (-n)

inductive Signed : List Char → Int → Prop
  | bare {text : List Char} {n : Int} (h : Unsigned text n) : Signed text n
  | plus {text : List Char} {n : Int} (h : Unsigned text n) : Signed ('+' :: text) n
  | minus {text : List Char} {n : Nat} (h : IsPlain text n) : Signed ('-' :: text) (-n)

/-- A number with white space around it. -/
def IsNumeral (text : String) (n : Int) : Prop :=
  ∃ front core back, text.toList = front ++ core ++ back ∧
    (∀ c ∈ front, isWhiteSpace c = true) ∧ (∀ c ∈ back, isWhiteSpace c = true) ∧ Signed core n

theorem lateNatural?_of_ne (h : text.head? ≠ some '_') :
    lateNatural? text =
      if text.head? = some '0' ∧ text ≠ ['0'] then none else natural? text := by
  have hOther (rest : List Char) : text ≠ '_' :: rest := by
    rintro rfl
    exact h rfl
  unfold lateNatural?
  dsimp only
  split
  · rename_i rest
    exact absurd rfl (hOther rest)
  · rfl

/-- The digits behind the late sign begin with a zero only if it is the number. -/
theorem ite_natural?_eq_some_iff :
    (if digits.head? = some '0' ∧ digits ≠ ['0'] then none else natural? digits) = some n ↔
      IsMagnitude digits n := by
  split
  · rename_i hMore
    refine iff_of_false nofun ?_
    rintro ⟨values, -, -, -, hAlone⟩
    exact hMore.2 (hAlone hMore.1)
  · rename_i hAlone
    refine ⟨fun hRead => isMagnitude_of_natural? hRead ?_, IsMagnitude.natural?⟩
    intro hFirst
    exact Decidable.not_not.mp fun hMore => hAlone ⟨hFirst, hMore⟩

theorem lateNatural?_eq_some_iff :
    lateNatural? text = some n ↔
      ∃ gap digits, text = gap ++ digits ∧ (gap = [] ∨ gap = ['_']) ∧ IsMagnitude digits n := by
  constructor
  · intro h
    by_cases hGap : text.head? = some '_'
    · obtain ⟨rest, rfl⟩ := List.head?_eq_some_iff.mp hGap
      exact ⟨['_'], rest, rfl, Or.inr rfl, ite_natural?_eq_some_iff.mp h⟩
    · rw [lateNatural?_of_ne hGap] at h
      exact ⟨[], text, rfl, Or.inl rfl, ite_natural?_eq_some_iff.mp h⟩
  · rintro ⟨gap, digits, rfl, rfl | rfl, hMagnitude⟩
    · obtain ⟨c, rest, hDigits, hDigit⟩ := hMagnitude.exists_cons
      have hGap : digits.head? ≠ some '_' := by
        rintro hSame
        rw [hDigits] at hSame
        cases hSame
        cases hDigit
      rw [List.nil_append, lateNatural?_of_ne hGap]
      exact ite_natural?_eq_some_iff.mpr hMagnitude
    · exact ite_natural?_eq_some_iff.mpr hMagnitude

theorem negated?_eq_some_iff {m : Int} :
    negated? text = some m ↔ ∃ n : Nat, IsPlain text n ∧ m = -n := by
  unfold negated?
  constructor
  · intro h
    split at h
    · cases h
    · rename_i digits hDigits
      obtain ⟨_, hMagnitude, rfl⟩ := Option.map_eq_some_iff.mp h
      obtain ⟨n, hNatural, hSame⟩ := Option.bind_eq_some_iff.mp hMagnitude
      cases hSame
      obtain ⟨start, fraction, rfl, hStart, hFraction, -, hCounts⟩ :=
        bind_whole?_eq_some_iff.mp hDigits
      exact ⟨n, ⟨start, digits, fraction, rfl, hStart,
        isMagnitude_of_natural? hNatural (eq_of_counts hCounts), hFraction⟩, rfl⟩
  · rintro ⟨n, ⟨start, digits, fraction, rfl, hStart, hMagnitude, hFraction⟩, rfl⟩
    rw [bind_whole?_eq_some_iff.mpr ⟨start, fraction, rfl, hStart, hFraction,
      hMagnitude.not_mem_point, hMagnitude.counts start⟩]
    dsimp only
    rw [hMagnitude.natural?]
    rfl

theorem unsigned?_eq_some_iff {m : Int} : unsigned? text = some m ↔ Unsigned text m := by
  unfold unsigned?
  constructor
  · intro h
    split at h
    · cases h
    · rename_i rest hRest
      obtain ⟨_, hMagnitude, rfl⟩ := Option.map_eq_some_iff.mp h
      obtain ⟨n, hLate, hSame⟩ := Option.bind_eq_some_iff.mp hMagnitude
      cases hSame
      obtain ⟨start, fraction, rfl, hStart, hFraction, -, c, others, hCons, hCounts⟩ :=
        bind_whole?_eq_some_iff.mp hRest
      obtain ⟨gap, digits, rfl, hGap, hDigits⟩ := lateNatural?_eq_some_iff.mp hLate
      cases hCons
      have hSome : start ≠ [] := by simpa using hCounts
      exact .late hStart hSome hGap hDigits hFraction
    · rename_i digits _ hDigits
      obtain ⟨n, hNatural, rfl⟩ := Option.map_eq_some_iff.mp h
      obtain ⟨start, fraction, rfl, hStart, hFraction, -, hCounts⟩ :=
        bind_whole?_eq_some_iff.mp hDigits
      exact .plain ⟨start, digits, fraction, rfl, hStart,
        isMagnitude_of_natural? hNatural (eq_of_counts hCounts), hFraction⟩
  · intro h
    cases h with
    | @plain text n h =>
      obtain ⟨start, digits, fraction, rfl, hStart, hMagnitude, hFraction⟩ := h
      rw [bind_whole?_eq_some_iff.mpr ⟨start, fraction, rfl, hStart, hFraction,
        hMagnitude.not_mem_point, hMagnitude.counts start⟩]
      obtain ⟨c, rest, rfl, hDigit⟩ := hMagnitude.exists_cons
      have hNatural := hMagnitude.natural?
      split
      · rename_i hSame
        cases hSame
      · rename_i hSame
        cases hSame
        cases hDigit
      · rename_i hSame
        cases hSame
        rw [hNatural]
        rfl
    | @late start gap digits fraction n hStart hSome hGap hMagnitude hFraction =>
      have hPoint : '.' ∉ '-' :: (gap ++ digits) := by
        rw [List.mem_cons, List.mem_append, not_or, not_or]
        refine ⟨by decide, ?_, hMagnitude.not_mem_point⟩
        rcases hGap with rfl | rfl
        · exact List.not_mem_nil
        · decide
      rw [bind_whole?_eq_some_iff.mpr ⟨start, fraction, rfl, hStart, hFraction, hPoint, '-', _, rfl,
        Or.inr (Or.inl ⟨rfl, hSome⟩)⟩]
      have hLate := lateNatural?_eq_some_iff.mpr ⟨gap, digits, rfl, hGap, hMagnitude⟩
      split
      · rename_i hSame
        cases hSame
      · rename_i hSame
        cases hSame
        rw [hLate]
        rfl
      · rename_i hOther hSame
        cases hSame
        exact absurd rfl (hOther _)

/-! ## White space -/

/-- The characters of numbers. -/
def IsNumeric (c : Char) : Prop :=
  c.isDigit = true ∨ c ∈ ['_', '.', '-', '+']

theorem IsNumeric.isWhiteSpace_eq_false {c : Char} (h : IsNumeric c) : isWhiteSpace c = false := by
  rw [Bool.eq_false_iff, Ne, isWhiteSpace, inRanges_iff]
  rcases h with hDigit | hSign
  · have hLow : 48 ≤ c.toNat ∧ c.toNat ≤ 57 := by
      simpa [Char.isDigit, UInt32.le_iff_toNat_le] using hDigit
    simp [whiteSpace]
    omega
  · simp only [List.mem_cons, List.not_mem_nil, or_false] at hSign
    rcases hSign with rfl | rfl | rfl | rfl <;> decide

theorem IsStart.isNumeric {start : List Char} (h : IsStart start) : ∀ c ∈ start, IsNumeric c := by
  rcases h with rfl | ⟨idle, rfl, hIdle⟩
  · exact nofun
  · rw [List.forall_mem_cons]
    refine ⟨Or.inl rfl, fun c hc => ?_⟩
    rcases hIdle c hc with rfl | rfl
    · exact Or.inl rfl
    · exact Or.inr (by decide)

theorem IsFraction.isNumeric {fraction : List Char} (h : IsFraction fraction) :
    ∀ c ∈ fraction, IsNumeric c := by
  rcases h with rfl | ⟨zeros, -, rfl, hZeros⟩
  · exact nofun
  · rw [List.forall_mem_cons]
    refine ⟨Or.inr (by decide), fun c hc => ?_⟩
    rw [hZeros c hc]
    exact Or.inl rfl

theorem IsMagnitude.isNumeric (h : IsMagnitude digits n) : ∀ c ∈ digits, IsNumeric c := by
  intro c hc
  rcases h.isDigit_or_eq c hc with hDigit | rfl
  · exact Or.inl hDigit
  · exact Or.inr (by decide)

theorem IsPlain.isNumeric (h : IsPlain text n) : text ≠ [] ∧ ∀ c ∈ text, IsNumeric c := by
  obtain ⟨start, digits, fraction, rfl, hStart, hMagnitude, hFraction⟩ := h
  obtain ⟨c, rest, hDigits, -⟩ := hMagnitude.exists_cons
  constructor
  · simp [hDigits]
  · rw [List.forall_mem_append, List.forall_mem_append]
    exact ⟨⟨hStart.isNumeric, hMagnitude.isNumeric⟩, hFraction.isNumeric⟩

theorem Unsigned.isNumeric {m : Int} (h : Unsigned text m) :
    text ≠ [] ∧ ∀ c ∈ text, IsNumeric c := by
  cases h with
  | plain h => exact h.isNumeric
  | @late start gap digits fraction n hStart hSome hGap hMagnitude hFraction =>
    have hGapNumeric : ∀ c ∈ gap, IsNumeric c := by
      rcases hGap with rfl | rfl
      · exact nofun
      · rw [List.forall_mem_singleton]
        exact Or.inr (by decide)
    constructor
    · simp
    · rw [List.forall_mem_append, List.forall_mem_append, List.forall_mem_cons,
        List.forall_mem_append]
      exact ⟨⟨hStart.isNumeric, Or.inr (by decide), hGapNumeric, hMagnitude.isNumeric⟩,
        hFraction.isNumeric⟩

theorem Signed.isNumeric {m : Int} (h : Signed text m) : text ≠ [] ∧ ∀ c ∈ text, IsNumeric c := by
  cases h with
  | bare h => exact h.isNumeric
  | plus h =>
    rw [List.forall_mem_cons]
    exact ⟨List.cons_ne_nil _ _, Or.inr (by decide), h.isNumeric.2⟩
  | minus h =>
    rw [List.forall_mem_cons]
    exact ⟨List.cons_ne_nil _ _, Or.inr (by decide), h.isNumeric.2⟩

theorem trim_append {kind : Char → Bool} {front back : List Char}
    (hFront : ∀ c ∈ front, kind c = true) (hBack : ∀ c ∈ back, kind c = true)
    (hSome : core ≠ []) (hCore : ∀ c ∈ core, kind c = false) :
    trim kind (front ++ core ++ back) = core := by
  have hStops {text : List Char} (hText : text ≠ []) (hKind : ∀ c ∈ text, kind c = false)
      (rest : List Char) : (text ++ rest).dropWhile kind = text ++ rest := by
    cases text with
    | nil => exact absurd rfl hText
    | cons c others =>
      exact List.dropWhile_cons_of_neg (Bool.eq_false_iff.mp (hKind c List.mem_cons_self))
  unfold trim
  rw [List.append_assoc, List.dropWhile_append_of_pos hFront, hStops hSome hCore,
    List.reverse_append, List.dropWhile_append_of_pos fun c hc => hBack c (List.mem_reverse.mp hc)]
  have hReverse := hStops (List.reverse_ne_nil_iff.mpr hSome)
    (fun c hc => hCore c (List.mem_reverse.mp hc)) []
  rw [List.append_nil] at hReverse
  rw [hReverse, List.reverse_reverse]

theorem exists_trim (kind : Char → Bool) (text : List Char) :
    ∃ front back, text = front ++ trim kind text ++ back ∧
      (∀ c ∈ front, kind c = true) ∧ ∀ c ∈ back, kind c = true := by
  have hAll (part : List Char) : ∀ c ∈ part.takeWhile kind, kind c = true :=
    List.all_eq_true.mp List.all_takeWhile
  refine ⟨text.takeWhile kind, ((text.dropWhile kind).reverse.takeWhile kind).reverse, ?_, hAll _,
    fun c hc => hAll _ c (List.mem_reverse.mp hc)⟩
  rw [trim, List.append_assoc, ← List.reverse_append, List.takeWhile_append_dropWhile,
    List.reverse_reverse, List.takeWhile_append_dropWhile]

/-! ## The whole text -/

/-- A number without a sign in front begins with a digit. -/
theorem Unsigned.exists_cons {m : Int} (h : Unsigned text m) :
    ∃ c rest, text = c :: rest ∧ c.isDigit = true := by
  cases h with
  | plain h =>
    obtain ⟨start, digits, fraction, rfl, hStart, hMagnitude, -⟩ := h
    obtain ⟨c, rest, rfl, hDigit⟩ := hMagnitude.exists_cons
    rcases hStart with rfl | ⟨idle, rfl, -⟩
    · exact ⟨c, rest ++ fraction, rfl, hDigit⟩
    · exact ⟨'0', idle ++ c :: rest ++ fraction, rfl, rfl⟩
  | @late start gap digits fraction n hStart hSome hGap hMagnitude hFraction =>
    rcases hStart with rfl | ⟨idle, rfl, -⟩
    · exact absurd rfl hSome
    · exact ⟨'0', idle ++ '-' :: (gap ++ digits) ++ fraction, rfl, rfl⟩

/-- What is read are the numbers of the grammar. -/
theorem integer?_eq_some_iff (text : String) (m : Int) :
    integer? text = some m ↔ IsNumeral text m := by
  unfold integer?
  constructor
  · intro h
    obtain ⟨front, back, hText, hFront, hBack⟩ := exists_trim isWhiteSpace text.toList
    refine ⟨front, trim isWhiteSpace text.toList, back, hText, hFront, hBack, ?_⟩
    generalize trim isWhiteSpace text.toList = core at h
    split at h
    · obtain ⟨n, hPlain, rfl⟩ := negated?_eq_some_iff.mp h
      exact .minus hPlain
    · exact .plus (unsigned?_eq_some_iff.mp h)
    · exact .bare (unsigned?_eq_some_iff.mp h)
  · rintro ⟨front, core, back, hText, hFront, hBack, hSigned⟩
    obtain ⟨hSome, hNumeric⟩ := hSigned.isNumeric
    rw [hText, trim_append hFront hBack hSome fun c hc => (hNumeric c hc).isWhiteSpace_eq_false]
    cases hSigned with
    | bare h =>
      obtain ⟨c, rest, rfl, hDigit⟩ := h.exists_cons
      have hRead := unsigned?_eq_some_iff.mpr h
      split
      · rename_i hSame
        cases hSame
        cases hDigit
      · rename_i hSame
        cases hSame
        cases hDigit
      · exact hRead
    | plus h => exact unsigned?_eq_some_iff.mpr h
    | minus h => exact negated?_eq_some_iff.mpr ⟨_, h, rfl⟩

/-! ## Decimal integers -/

/-- Nothing but digits stands behind the first character. -/
theorem IsDecimal.isDigit_of_mem_tail {text : String} {m : Int} (h : IsDecimal text m) :
    ∀ c ∈ text.toList.tail, c.isDigit = true := by
  cases h with
  | bare hSome hAll =>
    rw [String.toList_ofList]
    exact fun c hc => hAll c (List.mem_of_mem_tail hc)
  | plus hSome hAll =>
    rw [String.toList_ofList]
    exact hAll
  | minus hSome hAll =>
    rw [String.toList_ofList]
    exact hAll

theorem grouped_of_digits (hSome : digits ≠ []) (h : ∀ c ∈ digits, c.isDigit = true) :
    Grouped digits (digitValues digits) := by
  induction digits with
  | nil => exact absurd rfl hSome
  | cons c rest ih =>
    rw [List.forall_mem_cons] at h
    have hFirst : digitValue? c = some (c.toNat - '0'.toNat) :=
      digitValue?_eq_some_iff.mpr ⟨h.1, rfl⟩
    by_cases hRest : rest = []
    · subst hRest
      exact .last hFirst
    · exact .next hFirst (ih hRest h.2)

theorem ofDigits_zeros_append {zeros : List Char} (h : ∀ c ∈ zeros, c = '0') (rest : List Char) :
    ofDigits (digitValues (zeros ++ rest)) = ofDigits (digitValues rest) := by
  induction zeros with
  | nil => rfl
  | cons c others ih =>
    rw [List.forall_mem_cons] at h
    rw [← ih h.2, h.1]
    rfl

theorem isStart_of_zeros {zeros : List Char} (h : ∀ c ∈ zeros, c = '0') : IsStart zeros := by
  cases zeros with
  | nil => exact Or.inl rfl
  | cons c rest =>
    rw [List.forall_mem_cons] at h
    exact Or.inr ⟨rest, by rw [h.1], fun d hd => Or.inl (h.2 d hd)⟩

/-- Digits without a sign, of which not too many count. -/
theorem isPlain_of_digits (hSome : digits ≠ []) (h : ∀ c ∈ digits, c.isDigit = true)
    (hLength : (digits.dropWhile (· = '0')).length ≤ digitLimit) :
    IsPlain digits (ofDigits (digitValues digits)) := by
  have hZeros : ∀ c ∈ digits.takeWhile (· = '0'), c = '0' := fun c hc =>
    of_decide_eq_true (List.all_eq_true.mp List.all_takeWhile c hc)
  have hSplit := List.takeWhile_append_dropWhile (p := (· = '0')) (l := digits)
  by_cases hRest : digits.dropWhile (· = '0') = []
  · -- Only zeros: the last of them is the number.
    rw [hRest, List.append_nil] at hSplit
    rw [hSplit] at hZeros
    have hLast : digits.dropLast ++ ['0'] = digits := by
      have hEnd := List.dropLast_concat_getLast hSome
      rwa [hZeros _ (List.getLast_mem hSome)] at hEnd
    have hStart : ∀ c ∈ digits.dropLast, c = '0' := fun c hc =>
      hZeros c ((List.dropLast_sublist _).subset hc)
    refine ⟨digits.dropLast, ['0'], [], by rw [List.append_nil, hLast], isStart_of_zeros hStart,
      ⟨[0], .last rfl, by decide, ?_, fun _ => rfl⟩, Or.inl rfl⟩
    rw [← hLast, ofDigits_zeros_append hStart]
    rfl
  · have hAll : ∀ c ∈ digits.dropWhile (· = '0'), c.isDigit = true := by
      intro c hc
      apply h
      rw [← hSplit]
      exact List.mem_append_right _ hc
    refine ⟨digits.takeWhile (· = '0'), digits.dropWhile (· = '0'), [], ?_, isStart_of_zeros hZeros,
      ⟨digitValues (digits.dropWhile (· = '0')), grouped_of_digits hRest hAll, ?_, ?_, ?_⟩,
      Or.inl rfl⟩
    · rw [List.append_nil, hSplit]
    · rwa [digitValues, List.length_map]
    · rw [← ofDigits_zeros_append hZeros, hSplit]
    · intro hFirst
      have hStops := List.head?_dropWhile_not (fun c => decide (c = '0')) digits
      rw [hFirst] at hStops
      cases hStops

/-- A decimal integer is read unless too many of its digits count. -/
theorem isNumeral_of_isDecimal {text : String} {m : Int} (h : IsDecimal text m)
    (hLength : (countingDigits text).length ≤ digitLimit) : IsNumeral text m := by
  rw [countingDigits, digitsOf] at hLength
  have hWhole {core : List Char} (hCore : Signed core m) : IsNumeral (String.ofList core) m :=
    ⟨[], core, [], by rw [String.toList_ofList, List.append_nil, List.nil_append], nofun, nofun,
      hCore⟩
  have hDigits {digits : List Char} (hAll : ∀ c ∈ digits, c.isDigit = true) :
      digits.filter Char.isDigit = digits := List.filter_eq_self.mpr hAll
  cases h with
  | @bare digits hSome hAll =>
    rw [String.toList_ofList, hDigits hAll] at hLength
    exact hWhole (.bare (.plain (isPlain_of_digits hSome hAll hLength)))
  | @plus digits hSome hAll =>
    rw [String.toList_ofList, List.filter_cons_of_neg (by decide), hDigits hAll] at hLength
    exact hWhole (.plus (.plain (isPlain_of_digits hSome hAll hLength)))
  | @minus digits hSome hAll =>
    rw [String.toList_ofList, List.filter_cons_of_neg (by decide), hDigits hAll] at hLength
    exact hWhole (.minus (isPlain_of_digits hSome hAll hLength))

/-! ## Texts that are no integers -/

theorem Grouped.length_eq (h : Grouped digits values) (hAll : ∀ c ∈ digits, c.isDigit = true) :
    digits.length = values.length := by
  induction h with
  | last hDigit => rfl
  | next hDigit rest ih =>
    rw [List.forall_mem_cons] at hAll
    rw [List.length_cons, List.length_cons, ih hAll.2]
  | apart hDigit rest ih =>
    rw [List.forall_mem_cons, List.forall_mem_cons] at hAll
    exact absurd hAll.2.1 (by decide)

/-- Where there are only digits, not too many of them count. -/
theorem IsPlain.length_le (h : IsPlain text n) (hAll : ∀ c ∈ text, c.isDigit = true) :
    (text.dropWhile (· = '0')).length ≤ digitLimit := by
  obtain ⟨start, digits, fraction, rfl, hStart, ⟨values, hGrouped, hLength, -, -⟩, hFraction⟩ := h
  rw [List.forall_mem_append, List.forall_mem_append] at hAll
  obtain ⟨⟨hStartDigits, hDigits⟩, hFractionDigits⟩ := hAll
  have hZeros : ∀ c ∈ start, decide (c = '0') = true := by
    rcases hStart with rfl | ⟨idle, rfl, hIdle⟩
    · exact nofun
    · rw [List.forall_mem_cons] at hStartDigits ⊢
      refine ⟨rfl, fun c hc => ?_⟩
      rcases hIdle c hc with rfl | rfl
      · rfl
      · exact absurd (hStartDigits.2 _ hc) (by decide)
  have hNoFraction : fraction = [] := by
    rcases hFraction with rfl | ⟨zeros, -, rfl, -⟩
    · rfl
    · exact absurd (hFractionDigits _ List.mem_cons_self) (by decide)
  rw [hNoFraction, List.append_nil, List.dropWhile_append_of_pos hZeros]
  have hDropped := (List.dropWhile_sublist (fun c => decide (c = '0')) (l := digits)).length_le
  have hSame := hGrouped.length_eq hDigits
  omega

theorem Unsigned.length_le {m : Int} (h : Unsigned text m) (hAll : ∀ c ∈ text, c.isDigit = true) :
    (text.dropWhile (· = '0')).length ≤ digitLimit := by
  cases h with
  | plain h => exact h.length_le hAll
  | late =>
    rw [List.forall_mem_append, List.forall_mem_append, List.forall_mem_cons] at hAll
    exact absurd hAll.1.2.1 (by decide)

theorem Signed.length_le {m : Int} (h : Signed text m)
    (hTail : ∀ c ∈ text.tail, c.isDigit = true) :
    ((text.filter Char.isDigit).dropWhile (· = '0')).length ≤ digitLimit := by
  cases h with
  | bare h =>
    obtain ⟨c, rest, rfl, hDigit⟩ := h.exists_cons
    have hAll : ∀ d ∈ c :: rest, d.isDigit = true := List.forall_mem_cons.mpr ⟨hDigit, hTail⟩
    rw [List.filter_eq_self.mpr hAll]
    exact h.length_le hAll
  | plus h =>
    rw [List.tail_cons] at hTail
    rw [List.filter_cons_of_neg (by decide), List.filter_eq_self.mpr hTail]
    exact h.length_le hTail
  | minus h =>
    rw [List.tail_cons] at hTail
    rw [List.filter_cons_of_neg (by decide), List.filter_eq_self.mpr hTail]
    exact h.length_le hTail

theorem Signed.exists_isDigit {m : Int} (h : Signed text m) : ∃ c ∈ text, c.isDigit = true := by
  have hFirst {core : List Char} {k : Int} (hCore : Unsigned core k) :
      ∃ c ∈ core, c.isDigit = true := by
    obtain ⟨c, rest, rfl, hDigit⟩ := hCore.exists_cons
    exact ⟨c, List.mem_cons_self, hDigit⟩
  have hBehind (sign : Char) {core : List Char} {k : Int} (hCore : Unsigned core k) :
      ∃ c ∈ sign :: core, c.isDigit = true := by
    obtain ⟨c, hc, hDigit⟩ := hFirst hCore
    exact ⟨c, List.mem_cons_of_mem _ hc, hDigit⟩
  cases h with
  | bare h => exact hFirst h
  | plus h => exact hBehind '+' h
  | minus h => exact hBehind '-' (.plain h)

theorem IsDecimal.isNumeric {text : String} {m : Int} (h : IsDecimal text m) :
    ∀ c ∈ text.toList, IsNumeric c := by
  cases h with
  | bare hSome hAll =>
    rw [String.toList_ofList]
    exact fun c hc => Or.inl (hAll c hc)
  | plus hSome hAll =>
    rw [String.toList_ofList, List.forall_mem_cons]
    exact ⟨Or.inr (by decide), fun c hc => Or.inl (hAll c hc)⟩
  | minus hSome hAll =>
    rw [String.toList_ofList, List.forall_mem_cons]
    exact ⟨Or.inr (by decide), fun c hc => Or.inl (hAll c hc)⟩

/-- A decimal integer that is read has not too many digits that count. -/
theorem IsNumeral.length_le {text : String} {m n : Int} (h : IsNumeral text m)
    (hDecimal : IsDecimal text n) : (countingDigits text).length ≤ digitLimit := by
  obtain ⟨front, core, back, hText, hFront, hBack, hSigned⟩ := h
  have hNumeric := hDecimal.isNumeric
  rw [hText, List.forall_mem_append, List.forall_mem_append] at hNumeric
  have hNone {part : List Char} (hSpace : ∀ c ∈ part, isWhiteSpace c = true)
      (hPart : ∀ c ∈ part, IsNumeric c) : part = [] := by
    rw [List.eq_nil_iff_forall_not_mem]
    intro c hc
    exact Bool.false_ne_true ((hPart c hc).isWhiteSpace_eq_false.symm.trans (hSpace c hc))
  rw [hNone hFront hNumeric.1.1, hNone hBack hNumeric.2, List.append_nil, List.nil_append] at hText
  rw [countingDigits, digitsOf, hText]
  exact hSigned.length_le (hText ▸ hDecimal.isDigit_of_mem_tail)

theorem isWhiteSpace_of_isStrange {c : Char} (h : isStrange c = true) :
    isWhiteSpace c = false ∧ ¬IsNumeric c := by
  simp only [isStrange, Bool.and_eq_true, decide_eq_true_eq, Bool.not_eq_true'] at h
  obtain ⟨⟨⟨hLow, hHigh⟩, hDigit⟩, hSign⟩ := h
  constructor
  · have hLow' : 33 ≤ c.toNat := hLow
    have hHigh' : c.toNat ≤ 126 := hHigh
    rw [Bool.eq_false_iff, Ne, isWhiteSpace, inRanges_iff]
    simp [whiteSpace]
    omega
  · rintro (hOther | hOther)
    · exact Bool.false_ne_true (hDigit.symm.trans hOther)
    · exact hSign hOther

/-- A text that is no integer for any reader is no number of the grammar. -/
theorem integer?_of_isNoInteger {text : String} (h : IsNoInteger text) : integer? text = none := by
  rw [Option.eq_none_iff_forall_ne_some]
  intro m hRead
  have hNumeral := (integer?_eq_some_iff text m).mp hRead
  cases h with
  | @strange c hMem hStrange =>
    obtain ⟨front, core, back, hText, hFront, hBack, hSigned⟩ := hNumeral
    obtain ⟨hNoSpace, hOther⟩ := isWhiteSpace_of_isStrange hStrange
    rw [hText, List.mem_append, List.mem_append] at hMem
    rcases hMem with (hMem | hMem) | hMem
    · exact Bool.false_ne_true (hNoSpace.symm.trans (hFront c hMem))
    · exact hOther (hSigned.isNumeric.2 c hMem)
    · exact Bool.false_ne_true (hNoSpace.symm.trans (hBack c hMem))
  | noDigit hNone =>
    obtain ⟨front, core, back, hText, -, -, hSigned⟩ := hNumeral
    obtain ⟨c, hc, hDigit⟩ := hSigned.exists_isDigit
    have hMem : c ∈ text.toList := by
      rw [hText]
      exact List.mem_append_left _ (List.mem_append_right _ hc)
    exact Bool.false_ne_true ((hNone c hMem).2.symm.trans hDigit)
  | tooLong hDecimal hLong => exact Nat.not_le.mpr hLong (hNumeral.length_le hDecimal)

/-- A decimal integer of not too many digits is read. -/
theorem integer?_of_isDecimal {text : String} {m : Int} (h : IsDecimal text m)
    (hLength : (digitsOf text).length ≤ digitLimit) : integer? text = some m :=
  (integer?_eq_some_iff text m).mpr (isNumeral_of_isDecimal h
    (Nat.le_trans (List.dropWhile_sublist _).length_le hLength))

/-- A decimal integer is read as nothing else, however many digits it has. -/
theorem eq_of_isDecimal {text : String} {m n : Int} (h : IsDecimal text n)
    (hRead : integer? text = some m) : m = n := by
  have hLength := ((integer?_eq_some_iff text m).mp hRead).length_le h
  have hNumeral := (integer?_eq_some_iff text n).mpr (isNumeral_of_isDecimal h hLength)
  exact Option.some.inj (hRead.symm.trans hNumeral)

end XmlLayout.Text

import XmlLayout.Proofs.Reading.Runs

/-!
# Reading quoted values

The value of an attribute stands between quotes of a kind that does not occur between them, and
nothing else between them is markup or a line end. So the quotes are found, and what is between
them gives the value again: every character of white space other than a space is a reference, which
reading does not turn into a space.

* `quoteValue_eq`: a quoted value is its quotes and what is between them (`rawValue`).
* `value?_rawValue`: what is between the quotes gives the value.
* `attributes?_rawEntries`: the attributes of a tag, where nothing is declared.
-/

namespace XmlLayout.Reading

open Writing (escapeChar escapeValueChar escapeQuote quoteValue)

/-! ## Quotes and what is between them -/

/-- The quote around a value. -/
def quoteOf (value : List Char) : Char :=
  if '"' ∈ value ∧ '\'' ∉ value then '\'' else '"'

/-- How a character is written between the quotes around a value. -/
def spelling (value : List Char) (c : Char) : List Char :=
  if '"' ∈ value ∧ '\'' ∈ value then (escapeValueChar c).flatMap escapeQuote else escapeValueChar c

/-- What is between the quotes around a value. -/
def rawValue (value : List Char) : List Char :=
  value.flatMap (spelling value)

theorem quoteValue_eq (value : List Char) :
    quoteValue value = quoteOf value :: rawValue value ++ [quoteOf value] := by
  unfold quoteValue quoteOf rawValue spelling
  by_cases hDouble : '"' ∈ value
  · by_cases hSingle : '\'' ∈ value
    · simp [hDouble, hSingle, List.flatMap_assoc]
    · simp [hDouble, hSingle]
  · simp [hDouble]

theorem quoteOf_eq (value : List Char) : quoteOf value = '"' ∨ quoteOf value = '\'' := by
  unfold quoteOf
  split
  · exact Or.inr rfl
  · exact Or.inl rfl

/-- Characters that mean something to a reader are not in what a character is escaped to. -/
theorem not_mem_spelling {value : List Char} {c d : Char}
    (hc : d ∉ escapeValueChar c)
    (hd : d ∉ ['&', 'q', 'u', 'o', 't', ';']) : d ∉ spelling value c := by
  unfold spelling
  split
  · intro hMem
    obtain ⟨e, he, hde⟩ := List.mem_flatMap.mp hMem
    unfold escapeQuote at hde
    split at hde
    · exact hd hde
    · rw [List.mem_singleton] at hde
      exact hc (hde ▸ he)
  · exact hc

theorem not_mem_escapeValueChar_of_mem {c d : Char} (hd : d ∈ ['<', '\r', '\n', '\t']) :
    d ∉ escapeValueChar c := by
  by_cases hc : d = c
  · subst hc
    simp only [List.mem_cons, List.not_mem_nil, or_false] at hd
    rcases hd with rfl | rfl | rfl | rfl <;> decide
  · refine not_mem_escapeValueChar hc ?_
    simp only [List.mem_cons, List.not_mem_nil, or_false] at hd
    rcases hd with rfl | rfl | rfl | rfl <;> decide

theorem not_mem_rawValue_of_mem (value : List Char) {d : Char} (hd : d ∈ ['<', '\r', '\n', '\t']) :
    d ∉ rawValue value := by
  intro hMem
  obtain ⟨c, -, hc⟩ := List.mem_flatMap.mp hMem
  refine not_mem_spelling (not_mem_escapeValueChar_of_mem hd) ?_ hc
  simp only [List.mem_cons, List.not_mem_nil, or_false] at hd
  rcases hd with rfl | rfl | rfl | rfl <;> decide

theorem not_mem_escapeQuote (c : Char) : '"' ∉ escapeQuote c := by
  unfold escapeQuote
  split
  · decide
  · rename_i hc
    simpa using Ne.symm hc

/-- The quote around a value does not occur in it. -/
theorem quoteOf_not_mem_rawValue (value : List Char) : quoteOf value ∉ rawValue value := by
  intro hMem
  obtain ⟨c, hc, hQuote⟩ := List.mem_flatMap.mp hMem
  unfold quoteOf spelling at hQuote
  by_cases hDouble : '"' ∈ value
  · by_cases hSingle : '\'' ∈ value
    · rw [if_pos ⟨hDouble, hSingle⟩, if_neg fun h => h.2 hSingle] at hQuote
      obtain ⟨d, -, hd⟩ := List.mem_flatMap.mp hQuote
      exact not_mem_escapeQuote d hd
    · rw [if_neg fun h => hSingle h.2, if_pos ⟨hDouble, hSingle⟩] at hQuote
      have hNe : '\'' ≠ c := fun h => hSingle (h ▸ hc)
      exact not_mem_escapeValueChar hNe (by decide) hQuote
  · rw [if_neg fun h => hDouble h.1, if_neg fun h => hDouble h.1] at hQuote
    have hNe : '"' ≠ c := fun h => hDouble (h ▸ hc)
    exact not_mem_escapeValueChar hNe (by decide) hQuote

/-! ## Filling a value -/

/-- Reading a value leaves a character as it is. -/
def IsKept (c : Char) : Prop :=
  spaced c = c

theorem isKept_of_ne {c : Char} (hFeed : c ≠ '\n') (hReturn : c ≠ '\r') (hTab : c ≠ '\t') :
    IsKept c := by
  unfold IsKept spaced isSpace
  by_cases hSpace : c = ' '
  · simp [hSpace]
  · simp [hFeed, hReturn, hTab, hSpace]

theorem spells_spelling (value : List Char) (c : Char) :
    Spells .narrow IsKept (spelling value c) c := by
  unfold spelling
  split
  · exact spells_escapeQuote isKept_of_ne
  · exact spells_escapeValueChar isKept_of_ne

section Fill

variable (d : Definitions) (enter : Filling → List Char → Option Filling) {account : Account}
  {f : Filling}

def Counted (account : Account) (piece : Piece × Nat) : Prop :=
  account = .written ∨ account = .closed ∧ ∃ c, piece.1 = .plain c

theorem addPiece_of_gives (hUsage : f.usage.IsModest) {piece : Piece × Nat} {c : Char}
    (hGives : Gives IsKept piece c) (hCounted : Counted account piece) :
    ∃ usage, d.addPiece enter account f piece = some ⟨c :: f.done, usage⟩ ∧ usage.IsModest := by
  obtain ⟨form, n⟩ := piece
  obtain ⟨hn, hForm⟩ := hGives
  unfold Counted at hCounted
  simp only at hn hForm hCounted
  have hAccount : account ≠ .added := by
    rcases hCounted with rfl | ⟨rfl, -⟩ <;> decide
  rcases hForm with ⟨rfl, hKept⟩ | rfl | ⟨name, rfl, hName⟩
  · refine ⟨f.usage.note account n, ?_, hUsage.note hAccount n⟩
    rw [Definitions.addPiece, Filling.addPlain, hUsage.pass hAccount, Option.map_some, hKept]
  · refine ⟨f.usage.note account n, ?_, hUsage.note hAccount n⟩
    rw [Definitions.addPiece, Filling.addReferred, hUsage.pass hAccount, Option.map_some]
    rfl
  · have hWritten : account = .written := by
      rcases hCounted with h | ⟨-, e, he⟩
      · exact h
      · exact absurd he (by simp)
    subst hWritten
    refine ⟨(f.usage.note .written n).note .added 1, ?_, hUsage.note_added hn⟩
    simp only [Definitions.addPiece, d.meaning_of_predefined hName, Filling.addReferred,
      hUsage.pass hAccount, Option.map_some]

theorem foldlM_addPiece_of_gives {pieces : List (Piece × Nat)} {text : List Char}
    (hGives : List.Forall₂ (Gives IsKept) pieces text) (hUsage : f.usage.IsModest)
    (hCounted : ∀ piece ∈ pieces, Counted account piece) :
    ∃ usage, pieces.foldlM (d.addPiece enter account) f =
        some ⟨text.reverse ++ f.done, usage⟩ ∧ usage.IsModest := by
  induction hGives generalizing f with
  | nil => exact ⟨f.usage, rfl, hUsage⟩
  | @cons piece c pieces text hPiece _ ih =>
    have hFirst := hCounted piece (by simp)
    have hOthers : ∀ p ∈ pieces, Counted account p := fun p hp => hCounted p (by simp [hp])
    obtain ⟨usage, hAdd, hModest⟩ := addPiece_of_gives d enter hUsage hPiece hFirst
    obtain ⟨usage', hRest, hModest'⟩ := ih (f := ⟨c :: f.done, usage⟩) hModest hOthers
    refine ⟨usage', ?_, hModest'⟩
    rw [List.foldlM_cons, hAdd, Option.bind_eq_bind, Option.bind_some, hRest]
    simp

end Fill

/-- A value that is settled has no references in it. -/
theorem not_mem_of_isSettled {raw : List Char} (h : Definitions.isSettled raw = true) :
    '&' ∉ raw := by
  intro hMem
  simp only [Definitions.isSettled, Bool.and_eq_true, List.all_eq_true] at h
  have hAmp := h.1.1.1 '&' hMem
  simp at hAmp

/-- To what the bytes of a value are counted once more. -/
def accountOf (raw : List Char) : Account :=
  if Definitions.isSettled raw then .closed else .written

/-- What is between the quotes around a value gives the value. -/
theorem value?_rawValue {d : Definitions} {usage : Usage} (hUsage : usage.IsModest)
    (value : List Char) :
    ∃ usage', d.value? 0 .narrow (accountOf (rawValue value)) usage (rawValue value) =
        some (value, usage') ∧ usage'.IsModest := by
  have hReturn : '\r' ∉ rawValue value := not_mem_rawValue_of_mem value (by decide)
  have hLess : '<' ∉ rawValue value := not_mem_rawValue_of_mem value (by decide)
  have hLast : (rawValue value).getLast? ≠ some '\r' := fun h => hReturn (List.mem_of_getLast? h)
  have hChars : (Source.narrow.measured (rawValue value)).map Prod.fst = rawValue value := by
    rw [map_fst_measured, normalizeLineEnds_of_not_mem hReturn]
  obtain ⟨pieces, hPieces, hGives⟩ := exists_pieces_of_spells (fun c _ => spells_spelling value c)
    hChars (one_le_of_mem_measured .narrow _)
  -- What is not counted once more is settled, and a settled value has no references in it.
  have hCounted : ∀ piece ∈ pieces, Counted (accountOf (rawValue value)) piece := by
    intro piece hPiece
    unfold accountOf
    split
    · rename_i hSettled
      have hNone : ∀ c ∈ Source.narrow.measured (rawValue value), c.1 ≠ '&' := by
        intro c hc hAmp
        refine not_mem_of_isSettled hSettled ?_
        rw [← hChars, ← hAmp]
        exact List.mem_map_of_mem hc
      rw [piecesOf?_of_not_mem hNone] at hPieces
      obtain rfl := Option.some.inj hPieces
      obtain ⟨c, -, rfl⟩ := List.mem_map.mp hPiece
      exact Or.inr ⟨rfl, c.1, rfl⟩
    · exact Or.inl rfl
  obtain ⟨usage', hFold, hModest⟩ := foldlM_addPiece_of_gives d (fun _ _ => none)
    (f := ⟨[], usage⟩) hGives hUsage hCounted
  refine ⟨usage', ?_, hModest⟩
  simp only [Definitions.value?, Definitions.fill, Definitions.fillWith, hLess, if_false,
    Source.measuredValue_eq hLast, hPieces, hFold, hModest.check, Option.map_some,
    List.append_nil, List.reverse_reverse]

/-! ## The attributes of a tag -/

/-- Attributes as they are written in a tag. -/
def rawEntries (entries : List (String × String)) : List (QualifiedName × List Char) :=
  entries.map fun entry => (⟨none, entry.1.toList⟩, rawValue entry.2.toList)

def plainEntries (entries : List (String × String)) : List (QualifiedName × List Char) :=
  entries.map fun entry => (⟨none, entry.1.toList⟩, entry.2.toList)

theorem writtenValues_rawEntries {usage : Usage} (hUsage : usage.IsModest)
    (element : QualifiedName) (entries : List (String × String)) :
    ∃ usage', Definitions.empty.writtenValues 0 .narrow element usage (rawEntries entries) =
        some (plainEntries entries, usage') ∧ usage'.IsModest := by
  induction entries generalizing usage with
  | nil => exact ⟨usage, rfl, hUsage⟩
  | cons entry rest ih =>
    obtain ⟨usage₁, hValue, hFirst⟩ :=
      value?_rawValue (d := Definitions.empty) hUsage entry.2.toList
    obtain ⟨usage₂, hRest, hModest⟩ := ih hFirst
    refine ⟨usage₂, ?_, hModest⟩
    have hAccount : (if Definitions.isSettled (rawValue entry.2.toList) then Account.closed
        else Source.account .narrow) = accountOf (rawValue entry.2.toList) := rfl
    rw [rawEntries, List.map_cons, ← rawEntries, Definitions.writtenValues, hAccount, hValue]
    simp only [hRest]
    rfl

/-- Where nothing is declared, the attributes of a tag are those that are written. -/
theorem attributes?_rawEntries {usage : Usage} (hUsage : usage.IsModest)
    (element : QualifiedName) (entries : List (String × String)) :
    ∃ usage', Definitions.empty.attributes? 0 .narrow usage element (rawEntries entries) =
        some (plainEntries entries, usage') ∧ usage'.IsModest := by
  obtain ⟨usage', hValues, hModest⟩ := writtenValues_rawEntries hUsage element entries
  refine ⟨usage', ?_, hModest⟩
  have hStandard (written : List QualifiedName) :
      Definitions.empty.standardValues element written = [] := rfl
  rw [Definitions.attributes?, hValues, Option.map_some, hStandard, List.append_nil]

end XmlLayout.Reading

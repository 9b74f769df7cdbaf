/-!
# Lines

A line feed divides lines, and nothing else does: a text with `n` line feeds has `n + 1` lines,
and joining them with line feeds gives the text back.
-/

namespace XmlLayout.Text

/-- The lines of a text from those of the text behind its first character. -/
def addToLines (c : Char) (lines : List (List Char)) : List (List Char) :=
  if c = '\n' then [] :: lines
  else match lines with
    | [] => [[c]]
    | line :: others => (c :: line) :: others

def splitLines (text : List Char) : List (List Char) :=
  text.foldr addToLines [[]]

/-- The lines of a text, without their line feeds. -/
def lines (text : String) : List String :=
  (splitLines text.toList).map String.ofList

@[simp]
theorem splitLines_nil : splitLines [] = [[]] :=
  rfl

@[simp]
theorem splitLines_cons (c : Char) (rest : List Char) :
    splitLines (c :: rest) = addToLines c (splitLines rest) :=
  rfl

theorem addToLines_ne_nil (c : Char) (lines : List (List Char)) : addToLines c lines ≠ [] := by
  unfold addToLines
  split
  · simp
  · split <;> simp

theorem splitLines_ne_nil (text : List Char) : splitLines text ≠ [] := by
  cases text with
  | nil => simp
  | cons c rest => exact addToLines_ne_nil c _

/-- There is one line more than there are line feeds. -/
theorem length_splitLines (text : List Char) :
    (splitLines text).length = text.count '\n' + 1 := by
  induction text with
  | nil => rfl
  | cons c rest ih =>
    by_cases hc : c = '\n'
    · simp [addToLines, hc, ih]
    · obtain ⟨line, others, h⟩ := List.exists_cons_of_ne_nil (splitLines_ne_nil rest)
      rw [h] at ih
      simpa [addToLines, hc, h, List.count_cons_of_ne] using ih

/-- No line holds a line feed. -/
theorem not_mem_of_mem_splitLines {text line : List Char} (h : line ∈ splitLines text) :
    '\n' ∉ line := by
  induction text generalizing line with
  | nil => simp_all
  | cons c rest ih =>
    by_cases hc : c = '\n'
    · simp only [splitLines_cons, addToLines, hc, if_true, List.mem_cons] at h
      rcases h with h | h
      · simp [h]
      · exact ih h
    · obtain ⟨first, others, hs⟩ := List.exists_cons_of_ne_nil (splitLines_ne_nil rest)
      simp only [splitLines_cons, addToLines, hc, if_false, hs, List.mem_cons] at h
      rcases h with h | h
      · have := ih (hs ▸ List.mem_cons_self : first ∈ splitLines rest)
        simp [h, this, Ne.symm hc]
      · exact ih (hs ▸ List.mem_cons_of_mem _ h)

/-- Text without a line feed in front makes the first line longer. -/
theorem splitLines_append_of_not_mem {text rest first : List Char} {others : List (List Char)}
    (h : '\n' ∉ text) (hRest : splitLines rest = first :: others) :
    splitLines (text ++ rest) = (text ++ first) :: others := by
  induction text with
  | nil => exact hRest
  | cons c more ih =>
    rw [List.mem_cons, not_or] at h
    rw [List.cons_append, splitLines_cons, ih h.2, addToLines, if_neg (Ne.symm h.1)]
    rfl

theorem splitLines_of_not_mem {text : List Char} (h : '\n' ∉ text) : splitLines text = [text] := by
  simpa using splitLines_append_of_not_mem h splitLines_nil

/-- Lines that each have a line feed in front are the lines behind an empty one. -/
theorem splitLines_flatMap {lines : List (List Char)} (h : ∀ line ∈ lines, '\n' ∉ line) :
    splitLines (lines.flatMap fun line => '\n' :: line) = [] :: lines := by
  induction lines with
  | nil => rfl
  | cons line others ih =>
    rw [List.forall_mem_cons] at h
    have hOthers := splitLines_append_of_not_mem h.1 (ih h.2)
    rw [List.flatMap_cons, List.cons_append, splitLines_cons, hOthers, List.append_nil]
    rfl

/-- Joining the lines with line feeds gives the text back. -/
theorem intercalate_splitLines (text : List Char) :
    List.intercalate ['\n'] (splitLines text) = text := by
  induction text with
  | nil => rfl
  | cons c rest ih =>
    obtain ⟨first, others, h⟩ := List.exists_cons_of_ne_nil (splitLines_ne_nil rest)
    by_cases hc : c = '\n'
    · simp only [splitLines_cons, addToLines, hc, if_true]
      rw [h] at ih ⊢
      simpa [List.intercalate] using ih
    · simp only [splitLines_cons, addToLines, hc, if_false, h]
      rw [h] at ih
      rw [← ih]
      cases others <;> simp [List.intercalate]

end XmlLayout.Text

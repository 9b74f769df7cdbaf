/-!
# Sets of characters given by ranges

A character class of a standard is a list of ranges of code points, each with both of its ends.
-/

namespace XmlLayout.Text

/-- Whether the code point of `c` lies in one of the ranges of `table`. -/
def inRanges (table : List (Nat × Nat)) (c : Char) : Bool :=
  table.any fun range => range.1 ≤ c.toNat && c.toNat ≤ range.2

theorem inRanges_iff {table : List (Nat × Nat)} {c : Char} :
    inRanges table c = true ↔ ∃ range ∈ table, range.1 ≤ c.toNat ∧ c.toNat ≤ range.2 := by
  simp [inRanges]

/-- A character below every range of a table is not in it. -/
theorem not_inRanges_of_lt {table : List (Nat × Nat)} {c : Char}
    (h : ∀ range ∈ table, c.toNat < range.1) : inRanges table c = false := by
  rw [Bool.eq_false_iff, Ne, inRanges_iff]
  rintro ⟨range, hMem, hLow, -⟩
  exact absurd (h range hMem) (by omega)

end XmlLayout.Text

import XmlLayout.Decimal.Binary64

/-!
# Quotients that are not too large

A quotient below `halfRange` is rounded to a finite number: its leading bit stands at most at 1022,
and rounding up moves it by one place at most.

* `floorLog2_lt`: where the leading bit of a quotient stands.
* `exists_quotient?`: quotients that are not refused.
-/

namespace XmlLayout.Decimal

variable {num den k : Nat}

theorem floorLog2_lt (hNum : num ≠ 0) (hLess : num < den * Nat.pow 2 k) :
    floorLog2 num den < k := by
  have hDen : den ≠ 0 := by
    rintro rfl
    rw [Nat.zero_mul] at hLess
    exact Nat.not_lt_zero num hLess
  unfold floorLog2
  dsimp only
  -- The difference of the leading bits is right, or it is too high by one.
  split
  · rename_i hScaled
    cases hGuess : (num.log2 : Int) - den.log2 with
    | ofNat n =>
      rw [hGuess] at hScaled
      have hPower : den * Nat.pow 2 n < den * Nat.pow 2 k := Nat.lt_of_le_of_lt hScaled hLess
      have hExponent := (Nat.pow_lt_pow_iff_right (by decide)).mp (Nat.lt_of_mul_lt_mul_left hPower)
      exact Int.ofNat_lt.mpr hExponent
    | negSucc n => exact Int.lt_of_lt_of_le (Int.negSucc_lt_zero n) (Int.natCast_nonneg k)
  · have hBits : num < 2 ^ (den.log2 + 1 + k) := by
      rw [Nat.pow_add]
      exact Nat.lt_trans hLess (Nat.mul_lt_mul_of_pos_right Nat.lt_log2_self (Nat.two_pow_pos k))
    have hLog : num.log2 < den.log2 + 1 + k := (Nat.log2_lt hNum).mpr hBits
    omega

namespace Binary64

/-- Half of the first number that is too large. -/
def halfRange : Nat := Nat.pow 2 1023

theorem nearestParts_le (hLess : num < den * halfRange) :
    (nearestParts num den).2 ≤ greatestExponent := by
  unfold nearestParts
  split
  · decide
  · rename_i hNum
    unfold halfRange at hLess
    have hLog := floorLog2_lt hNum hLess
    have hPlaces : max (floorLog2 num den - (precision - 1)) leastExponent ≤ 970 := by
      simp only [precision, leastExponent]
      omega
    simp only [greatestExponent]
    -- Rounding up to a power of two takes one place more.
    split
    · dsimp only
      omega
    · dsimp only
      omega

theorem exists_quotient? {a b : Int} (hLess : a.natAbs < b.natAbs * halfRange) :
    ∃ x, quotient? a b = some x := by
  unfold quotient? nearest?
  dsimp only
  rw [if_pos (nearestParts_le hLess)]
  exact ⟨_, rfl⟩

end Binary64

end XmlLayout.Decimal

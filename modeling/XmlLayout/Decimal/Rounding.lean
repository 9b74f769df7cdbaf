/-!
# Rounding a quotient

The nearest integer to a quotient of natural numbers, a half going to the even neighbour, and
the scaling that turns rounding to a multiple of a power of two into it.
-/

namespace XmlLayout.Decimal

/-- The integer nearest to `num / den`; of two equally near ones the even. -/
def roundDiv (num den : Nat) : Nat :=
  let floor := num / den
  let twice := 2 * (num % den)
  if twice < den ∨ (twice = den ∧ floor % 2 = 0) then floor else floor + 1

/-- The quotient `num / den` divided by `2 ^ exponent`, again as a quotient. -/
def scaleDown (num den : Nat) : Int → Nat × Nat
  | .ofNat n => (num, den * Nat.pow 2 n)
  | .negSucc n => (num * Nat.pow 2 (n + 1), den)

/-- The greatest `k` with `2 ^ k ≤ num / den`, for positive `num` and `den`. -/
def floorLog2 (num den : Nat) : Int :=
  let guess : Int := (num.log2 : Int) - (den.log2 : Int)
  let scaled := scaleDown num den guess
  if scaled.2 ≤ scaled.1 then guess else guess - 1

/-- Rounding is off by at most a half. -/
theorem roundDiv_near (num : Nat) {den : Nat} (hDen : 0 < den) :
    2 * num ≤ 2 * (den * roundDiv num den) + den ∧
      2 * (den * roundDiv num den) ≤ 2 * num + den := by
  have hSplit : den * (num / den) + num % den = num := Nat.div_add_mod num den
  have hRest : num % den < den := Nat.mod_lt num hDen
  simp only [roundDiv]
  generalize num / den = floor at hSplit ⊢
  generalize num % den = rest at hSplit hRest ⊢
  split
  · generalize den * floor = product at hSplit ⊢
    omega
  · rw [Nat.mul_add, Nat.mul_one]
    generalize den * floor = product at hSplit ⊢
    omega

/-- A quotient halfway between two integers goes to the even one. -/
theorem roundDiv_even_of_half {num den : Nat} (hHalf : 2 * (num % den) = den) :
    roundDiv num den % 2 = 0 := by
  simp only [roundDiv, hHalf, Nat.lt_irrefl, false_or, true_and]
  generalize num / den = floor
  split <;> omega

/-- An exact quotient is not changed. -/
theorem roundDiv_mul (n : Nat) {den : Nat} (hDen : 0 < den) : roundDiv (n * den) den = n := by
  simp [roundDiv, Nat.mul_div_cancel n hDen, hDen]

end XmlLayout.Decimal

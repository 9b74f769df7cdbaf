/-!
# Lengths and positions

A length, a size and a position have to fit a signed machine word of 64 bits. What does not fit is
refused before anything is done, and so is what would take more memory than is ever asked for.
-/

namespace XmlLayout

def largestLength : Int := Nat.pow 2 63 - 1

/-- Whether a number, which may be negative, fits a machine word. -/
def fitsWord (n : Int) : Bool :=
  -largestLength - 1 ≤ n && n ≤ largestLength

/-- The largest number of bytes that are asked for at once. -/
def memoryLimit : Int := Nat.pow 2 36

theorem fitsWord_iff {n : Int} :
    fitsWord n = true ↔ -largestLength - 1 ≤ n ∧ n ≤ largestLength := by
  rw [fitsWord, Bool.and_eq_true, decide_eq_true_iff, decide_eq_true_iff]

end XmlLayout

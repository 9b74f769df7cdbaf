import XmlLayout.Error

/-!
# Draws

Choices are made by numbers from an unending sequence, which are taken in turn. A choice among
`n` things takes one number modulo `n`. How many numbers were taken is counted, also when
something fails afterwards.
-/

namespace XmlLayout.Sample

/-- An unending sequence of numbers, and how many of them were taken. -/
structure Draws where
  number : Nat → Int
  used : Nat

/-- The numbers of a list, over and over; only zeros if it is empty. -/
def Draws.cycle (numbers : Array Int) : Draws :=
  ⟨fun i => numbers.getD (i % numbers.size) 0, 0⟩

/-- Something made by choices. -/
abbrev Sampling := EStateM Error Draws

/-- A number below a positive bound. -/
def draw (n : Nat) (hn : 0 < n) : Sampling (Fin n) :=
  modifyGet fun d =>
    (⟨(d.number d.used % (n : Int)).toNat, by
      have hLow := Int.emod_nonneg (d.number d.used) (by omega : (n : Int) ≠ 0)
      have hHigh := Int.emod_lt_of_pos (d.number d.used) (by omega : (0 : Int) < n)
      omega⟩,
      { d with used := d.used + 1 })

/-- A number below a bound. No number is taken when there is none to choose. -/
def below (n : Int) : Sampling { k : Nat // (k : Int) < n } := do
  if hn : 0 < n then
    let k ← draw n.toNat (by omega)
    return ⟨k, by omega⟩
  else throw .emptyRange

def choose {α : Type} (items : List α) (h : 0 < items.length) : Sampling α := do
  let i ← draw items.length h
  return items[i]

/-- Makes something several times. -/
def repeatedly {α : Type} (make : Sampling α) : Nat → Sampling (List α)
  | 0 => return []
  | n + 1 => do
    let first ← make
    let rest ← repeatedly make n
    return first :: rest

end XmlLayout.Sample

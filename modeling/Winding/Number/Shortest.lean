import Winding.Number.Decimal
import Winding.Number.Rounding

/-!
# Decimal texts of binary magnitudes

`BinaryFormat.shortest` is the decimal with the fewest digits that rounds back to a magnitude, and
the nearest such decimal, a tie going up. It walks the decimal grids from coarse to fine and takes
the first whose neighbours of the value round back; the grid of the format's smallest unit always
does. `BinaryFormat.fixed` and `BinaryFormat.significant` round the exact value to a given number
of places or of digits, a tie going to the even digit.
-/

namespace Winding

namespace BinaryFormat

variable (f : BinaryFormat)

/-- The magnitude that `coefficient * 10 ^ exponent` rounds to, without the upper bound. -/
def ofScaled (coefficient : Nat) (exponent : Int) : Nat :=
  if exponent < 0 then f.round (coefficient * 2 ^ f.unit) (10 ^ exponent.natAbs)
  else f.round (coefficient * 10 ^ exponent.toNat * 2 ^ f.unit) 1

/-- A magnitude as a quotient of whole numbers after division by `10 ^ exponent`. -/
def scaled (magnitude : Nat) (exponent : Int) : Nat × Nat :=
  if exponent < 0 then (magnitude * 10 ^ exponent.natAbs, 2 ^ f.unit)
  else (magnitude, 10 ^ exponent.toNat * 2 ^ f.unit)

/-- An exponent whose power of ten is at about the magnitude, or one place above. -/
def topExponent (magnitude : Nat) : Int :=
  ((magnitude.log2 + 1 : Int) - f.unit) * 30103 / 100000 + 1

/-- The neighbour of a magnitude on the grid of `10 ^ exponent` that rounds back to it; the nearer
of two, and of two equally near ones the larger. -/
def onGrid? (magnitude : Nat) (exponent : Int) : Option Nat :=
  let (num, den) := f.scaled magnitude exponent
  let low := num / den
  let lowFits := f.ofScaled low exponent = magnitude
  let highFits := f.ofScaled (low + 1) exponent = magnitude
  if lowFits ∧ (¬ highFits ∨ 2 * (num % den) < den) then some low
  else if highFits then some (low + 1)
  else none

/-- The first grid, from `exponent` downwards, with a neighbour that rounds back. -/
def searchGrids (magnitude : Nat) (exponent : Int) : Nat → Nat × Int
  | 0 => (magnitude * 5 ^ f.unit, -f.unit)
  | fuel + 1 =>
    match f.onGrid? magnitude exponent with
    | some coefficient => (coefficient, exponent)
    | none => searchGrids magnitude (exponent - 1) fuel

/-- Coefficient and exponent of the shortest decimal that rounds back to a magnitude. The value
itself lies on the last grid that the search can reach. -/
def shortest (magnitude : Nat) : Nat × Int :=
  if magnitude = 0 then (0, 0)
  else
    let top := f.topExponent magnitude
    f.searchGrids magnitude top (top + f.unit).toNat

/-- A magnitude rounded to `places` decimals. -/
def fixed (places magnitude : Nat) : Decimal :=
  ⟨false, roundDiv (magnitude * 10 ^ places) (2 ^ f.unit), -places⟩

/-- The exponent of the first decimal digit of a magnitude above zero. -/
def firstExponent (magnitude : Nat) : Int :=
  let top := f.topExponent magnitude + 1
  let candidates := [top, top - 1, top - 2, top - 3]
  (candidates.find? fun k =>
    let (num, den) := f.scaled magnitude k
    den ≤ num).getD (top - 4)

/-- A magnitude rounded to `count` significant digits: the digits and the exponent of the first. -/
def significant (count magnitude : Nat) : Nat × Int :=
  if magnitude = 0 then (0, 0)
  else
    let first := f.firstExponent magnitude
    let (num, den) := f.scaled magnitude (first - (count - 1 : Nat))
    let digits := roundDiv num den
    if digits = 10 ^ count then (10 ^ (count - 1), first + 1) else (digits, first)

end BinaryFormat

end Winding

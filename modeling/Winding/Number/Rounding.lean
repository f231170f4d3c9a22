/-!
# Rounding exact quantities to binary precision

A finite binary number is a whole multiple of the smallest positive number of its format, so its
magnitude is kept as that multiple, a `Nat`. Every conversion computes the exact quotient first and
rounds once, to the nearest representable multiple, a tie going to the even significand
(`BinaryFormat.round`). Square roots are rounded the same way from the exact radicand
(`BinaryFormat.roundSqrt`).
-/

namespace Winding

-- Powers stay those of the core library beside libraries that bring their own.
attribute [scoped instance (2000)] instPowNat

/-! ## Nearest integers -/

/-- The whole number nearest to `num / den`; a tie goes to the even neighbour. -/
def roundDiv (num den : Nat) : Nat :=
  let q := num / den
  let twice := 2 * (num % den)
  if twice < den then q
  else if den < twice then q + 1
  else if q % 2 = 0 then q else q + 1

theorem le_roundDiv (num den : Nat) : num / den ≤ roundDiv num den := by
  simp only [roundDiv]; repeat' split
  all_goals omega

theorem roundDiv_le (num den : Nat) : roundDiv num den ≤ num / den + 1 := by
  simp only [roundDiv]; repeat' split
  all_goals omega

theorem roundDiv_mul_self (q : Nat) {den : Nat} (h : 0 < den) : roundDiv (q * den) den = q := by
  simp [roundDiv, Nat.mul_div_cancel _ h, h]

/-- The largest `r` with `r * r ≤ n`, two binary digits of `n` at a time. -/
def floorSqrt (n : Nat) : Nat :=
  if n = 0 then 0
  else
    let r := 2 * floorSqrt (n / 4)
    if (r + 1) * (r + 1) ≤ n then r + 1 else r
termination_by n
decreasing_by omega

/-! ## Binary formats -/

/-- A binary number format: `precision` significant bits, finite magnitudes the multiples of
`2 ^ (-unit)` below `2 ^ (bound - unit)`. -/
structure BinaryFormat where
  precision : Nat
  unit : Nat
  bound : Nat
deriving DecidableEq, Repr

namespace BinaryFormat

/-- 64-bit numbers. -/
def double : BinaryFormat := ⟨53, 1074, 2098⟩

/-- 32-bit numbers. -/
def single : BinaryFormat := ⟨24, 149, 277⟩

variable (f : BinaryFormat)

/-- Low binary places that a magnitude with the integer part `whole` has no room for. -/
def excess (whole : Nat) : Nat :=
  if whole = 0 then 0 else whole.log2 + 1 - f.precision

/-- The magnitude nearest to `num / den` units, a tie going to the even significand, without the
upper bound. -/
def round (num den : Nat) : Nat :=
  let step := 2 ^ f.excess (num / den)
  roundDiv num (den * step) * step

/-- The magnitude nearest to the square root of `n` squared units. -/
def roundSqrt (n : Nat) : Nat :=
  let whole := floorSqrt n
  let step := 2 ^ f.excess whole
  let q := whole / step
  let middle := (2 * q + 1) * step
  let digit :=
    if 4 * n < middle * middle then q
    else if middle * middle < 4 * n then q + 1
    else if q % 2 = 0 then q else q + 1
  digit * step

/-- Whether a magnitude is below the format's bound. -/
def holds (magnitude : Nat) : Bool := decide (magnitude < 2 ^ f.bound)

/-- The exponent and significand fields of a magnitude, as one number. -/
def pack (magnitude : Nat) : Nat :=
  let places := f.excess magnitude
  places * 2 ^ (f.precision - 1) + magnitude / 2 ^ places

/-- The magnitude with these exponent and significand fields. -/
def unpack (bits : Nat) : Nat :=
  let exponent := bits / 2 ^ (f.precision - 1)
  let fraction := bits % 2 ^ (f.precision - 1)
  if exponent = 0 then fraction
  else (2 ^ (f.precision - 1) + fraction) * 2 ^ (exponent - 1)

/-- The fields of infinity, those of the first magnitude past the bound. -/
def infinity : Nat := f.pack (2 ^ f.bound)

end BinaryFormat

end Winding

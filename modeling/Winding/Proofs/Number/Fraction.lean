import Mathlib.Data.Rat.Sqrt
import Winding.Number.Scalar

/-!
# Fractions

Rational numbers as coordinates. Sums, products and quotients are exact, and so is the order; roots
are not.
-/

namespace Winding

/-- A rational number of millimetres. -/
structure Fraction where
  value : ℚ
deriving DecidableEq, Repr

/-- Rational numbers as coordinates. A root is that of the numerator and of the denominator, each
rounded down; angles are left as they are, and the 32-bit numbers of a controller read as zero. -/
instance : Scalar Fraction where
  add a b := ⟨a.value + b.value⟩
  sub a b := ⟨a.value - b.value⟩
  mul a b := ⟨a.value * b.value⟩
  div a b := ⟨a.value / b.value⟩
  beq a b := decide (a = b)
  ofDecimal d :=
    ⟨(if d.negative then -1 else 1) * d.coefficient * 10 ^ d.exponent.toNat /
      10 ^ (-d.exponent).toNat⟩
  ofNumeral? _ := none
  lt a b := decide (a.value < b.value)
  le a b := decide (a.value ≤ b.value)
  isFinite _ := true
  abs a := ⟨|a.value|⟩
  sqrt a := ⟨Rat.sqrt a.value⟩
  atan a := a
  hypot a b := ⟨Rat.sqrt (a.value ^ 2 + b.value ^ 2)⟩
  whole? a := if a.value.den = 1 then some a.value.num else none
  text a := toString a.value
  fixed _ a := toString a.value
  toSingle a := Float32.ofInt a.value.floor
  ofSingle _ := ⟨0⟩

namespace Fraction

@[ext] theorem ext {a b : Fraction} (h : a.value = b.value) : a = b := by
  cases a
  cases b
  exact congrArg mk h

@[simp] theorem value_add (a b : Fraction) : (a + b).value = a.value + b.value := rfl

@[simp] theorem value_sub (a b : Fraction) : (a - b).value = a.value - b.value := rfl

@[simp] theorem value_mul (a b : Fraction) : (a * b).value = a.value * b.value := rfl

@[simp] theorem value_div (a b : Fraction) : (a / b).value = a.value / b.value := rfl

@[simp] theorem value_abs (a : Fraction) : (Scalar.abs a).value = |a.value| := rfl

@[simp] theorem value_zero : (Scalar.zero : Fraction).value = 0 := by decide +kernel

@[simp] theorem lt_iff (a b : Fraction) : Scalar.lt a b = true ↔ a.value < b.value :=
  decide_eq_true_iff

theorem beq_zero_iff (a : Fraction) : (a == Scalar.zero) = true ↔ a.value = 0 := by
  rw [← value_zero, ← Fraction.ext_iff]
  exact decide_eq_true_iff

/-- The gap between one and the next 64-bit number. -/
@[simp] theorem value_epsilon : (Scalar.epsilon : Fraction).value = 1 / 2 ^ 52 := by
  decide +kernel

end Fraction

end Winding

import Mathlib.Algebra.BigOperators.Group.List.Basic
import Mathlib.Tactic.Abel
import Winding.Number.Scalar

/-!
# Exact numbers

Lengths are counted in floating point by the machine, and statements about them are made over
number systems whose sums are exact (`ExactScalar`). Whole numbers are such a system (`Whole`).
-/

namespace Winding

/-- A number system without rounding: sums and differences form an ordered group, every number is
finite, and distances are not below zero. -/
class ExactScalar (R : Type) [Scalar R] : Prop where
  add_assoc : ∀ a b c : R, a + b + c = a + (b + c)
  add_comm : ∀ a b : R, a + b = b + a
  zero_add : ∀ a : R, Scalar.zero + a = a
  sub_add_cancel : ∀ a b : R, a - b + b = a
  lt_add : ∀ a b c : R, Scalar.lt (c + a) (c + b) = Scalar.lt a b
  lt_trichotomy : ∀ a b : R, Scalar.lt a b = true ∨ a = b ∨ Scalar.lt b a = true
  lt_asymm : ∀ a b : R, Scalar.lt a b = true → Scalar.lt b a = false
  lt_trans : ∀ a b c : R, Scalar.lt a b = true → Scalar.lt b c = true → Scalar.lt a c = true
  isFinite : ∀ a : R, Scalar.isFinite a = true
  hypot_nonneg : ∀ a b : R, Scalar.lt (Scalar.hypot a b) Scalar.zero = false
  abs_nonneg : ∀ a : R, Scalar.lt (Scalar.abs a) Scalar.zero = false

namespace ExactScalar

variable {R : Type} [Scalar R] [ExactScalar R]

theorem add_sub_cancel (a b : R) : a + b - b = a := by
  have neg : b + (Scalar.zero - b) = Scalar.zero := by rw [add_comm, sub_add_cancel]
  calc a + b - b
      = (a + b - b) + (b + (Scalar.zero - b)) := by rw [neg, add_comm _ Scalar.zero, zero_add]
    _ = (a + b - b + b) + (Scalar.zero - b) := (add_assoc _ _ _).symm
    _ = a := by rw [sub_add_cancel, add_assoc, neg, add_comm _ Scalar.zero, zero_add]

theorem sub_eq (a b : R) : a - b = a + (Scalar.zero - b) := by
  have e : a + (Scalar.zero - b) + b = a := by
    rw [add_assoc, sub_add_cancel, add_comm, zero_add]
  calc a - b
      = a + (Scalar.zero - b) + b - b := by rw [e]
    _ = a + (Scalar.zero - b) := add_sub_cancel _ _

/-- The group of exact numbers. -/
@[reducible] def addCommGroup (R : Type) [Scalar R] [ExactScalar R] : AddCommGroup R :=
  letI : Zero R := ⟨Scalar.zero⟩
  letI : Neg R := ⟨fun a => Scalar.zero - a⟩
  { add_assoc := add_assoc
    zero_add := zero_add
    add_zero := fun a => (add_comm a _).trans (zero_add a)
    nsmul := nsmulRec
    sub_eq_add_neg := sub_eq
    zsmul := zsmulRec
    neg_add_cancel := fun a => sub_add_cancel _ a
    add_comm := add_comm }

attribute [local instance] addCommGroup

/-! ## Sums -/

theorem sum_eq (xs : List R) : Scalar.sum xs = xs.sum := by
  rw [List.sum_eq_foldl]
  rfl

omit [ExactScalar R] in
theorem sum_nil : Scalar.sum ([] : List R) = Scalar.zero := rfl

theorem sum_cons (x : R) (xs : List R) : Scalar.sum (x :: xs) = x + Scalar.sum xs := by
  rw [sum_eq, sum_eq, List.sum_cons]

theorem sum_append (xs ys : List R) :
    Scalar.sum (xs ++ ys) = Scalar.sum xs + Scalar.sum ys := by
  rw [sum_eq, sum_eq, sum_eq, List.sum_append]

/-- A sum can be taken in two parts. -/
theorem sum_filter {α : Type} (f : α → R) (p : α → Bool) (xs : List α) :
    Scalar.sum (xs.map f) =
      Scalar.sum ((xs.filter p).map f) + Scalar.sum ((xs.filter fun x => !p x).map f) := by
  simp only [sum_eq]
  induction xs with
  | nil => exact (add_zero _).symm
  | cons x xs ih =>
    by_cases h : p x
    · rw [List.filter_cons_of_pos h, List.filter_cons_of_neg (by simp [h])]
      simp only [List.map_cons, List.sum_cons, ih]
      abel
    · rw [List.filter_cons_of_neg h, List.filter_cons_of_pos (by simp [h])]
      simp only [List.map_cons, List.sum_cons, ih]
      abel

/-- Numbers that are taken away one by one are taken away together, in any order. -/
theorem foldl_sub (xs : List R) (a : R) :
    xs.reverse.foldl (· - ·) a = a - Scalar.sum xs := by
  rw [sum_eq]
  induction xs with
  | nil => exact (sub_zero a).symm
  | cons x xs ih =>
    rw [List.reverse_cons, List.foldl_append, ih, List.sum_cons]
    change a - xs.sum - x = a - (x + xs.sum)
    abel

/-! ## Order -/

theorem not_lt_add {a b : R} (h : Scalar.lt b Scalar.zero = false) :
    Scalar.lt (a + b) a = false := by
  have shifted := lt_add b Scalar.zero a
  rw [add_comm a Scalar.zero, zero_add] at shifted
  rw [shifted, h]

theorem add_nonneg {a b : R} (ha : Scalar.lt a Scalar.zero = false)
    (hb : Scalar.lt b Scalar.zero = false) : Scalar.lt (a + b) Scalar.zero = false := by
  by_contra below
  rw [Bool.not_eq_false] at below
  rcases lt_trichotomy a Scalar.zero with h | rfl | h
  · rw [h] at ha
    cases ha
  · rw [zero_add, hb] at below
    cases below
  · have above := lt_add Scalar.zero a b
    rw [h, add_comm b Scalar.zero, zero_add, add_comm b a] at above
    rw [lt_trans _ _ _ above below] at hb
    cases hb

theorem zero_nonneg : Scalar.lt (Scalar.zero : R) Scalar.zero = false := by
  by_contra below
  rw [Bool.not_eq_false] at below
  rw [lt_asymm _ _ below] at below
  cases below

theorem sum_nonneg {xs : List R} (h : ∀ x ∈ xs, Scalar.lt x Scalar.zero = false) :
    Scalar.lt (Scalar.sum xs) Scalar.zero = false := by
  induction xs with
  | nil =>
    rw [sum_nil]
    exact zero_nonneg
  | cons x xs ih =>
    rw [sum_cons]
    exact add_nonneg (h x List.mem_cons_self) (ih fun y hy => h y (List.mem_cons_of_mem x hy))

/-- Two numbers neither of which is below the other are one. -/
theorem eq_of_not_lt {a b : R} (h : Scalar.lt a b = false) (h' : Scalar.lt b a = false) :
    a = b := by
  rcases lt_trichotomy a b with hlt | e | hlt
  · rw [h] at hlt
    cases hlt
  · exact e
  · rw [h'] at hlt
    cases hlt

end ExactScalar

/-! ## Whole numbers -/

/-- A whole number of millimetres. -/
structure Whole where
  value : Int
deriving DecidableEq, Repr

/-- Whole numbers as coordinates and lengths. Quotients and roots are rounded down, and the 32-bit
numbers of a controller read as zero. -/
instance : Scalar Whole where
  add a b := ⟨a.value + b.value⟩
  sub a b := ⟨a.value - b.value⟩
  mul a b := ⟨a.value * b.value⟩
  div a b := ⟨a.value / b.value⟩
  beq a b := decide (a = b)
  ofDecimal d :=
    ⟨(if d.negative then -1 else 1) * d.coefficient * 10 ^ d.exponent.toNat /
      10 ^ (-d.exponent).toNat⟩
  ofNumeral? _ := none
  lt a b := decide (a.value < b.value)
  le a b := decide (a.value ≤ b.value)
  isFinite _ := true
  abs a := ⟨a.value.natAbs⟩
  sqrt a := ⟨Nat.sqrt a.value.toNat⟩
  atan a := a
  hypot a b := ⟨Nat.sqrt (a.value.natAbs ^ 2 + b.value.natAbs ^ 2)⟩
  whole? a := some a.value
  text a := toString a.value
  fixed _ a := toString a.value
  toSingle a := Float32.ofInt a.value
  ofSingle _ := ⟨0⟩

namespace Whole

@[simp] theorem value_add (a b : Whole) : (a + b).value = a.value + b.value := rfl

@[simp] theorem value_sub (a b : Whole) : (a - b).value = a.value - b.value := rfl

@[simp] theorem value_zero : (Scalar.zero : Whole).value = 0 := rfl

@[simp] theorem lt_eq (a b : Whole) : Scalar.lt a b = decide (a.value < b.value) := rfl

@[ext] theorem ext {a b : Whole} (h : a.value = b.value) : a = b := by
  cases a
  cases b
  exact congrArg mk h

instance : ExactScalar Whole where
  add_assoc a b c := ext (Int.add_assoc ..)
  add_comm a b := ext (Int.add_comm ..)
  zero_add a := ext (Int.zero_add _)
  sub_add_cancel a b := ext (Int.sub_add_cancel ..)
  lt_add a b c := by simp
  lt_trichotomy a b := by
    simp only [lt_eq, decide_eq_true_eq, Whole.ext_iff]
    omega
  lt_asymm a b h := by
    simp only [lt_eq, decide_eq_true_eq, decide_eq_false_iff_not] at h ⊢
    omega
  lt_trans a b c h h' := by
    simp only [lt_eq, decide_eq_true_eq] at h h' ⊢
    omega
  isFinite _ := rfl
  hypot_nonneg _ _ := decide_eq_false (Int.not_lt.mpr (Int.natCast_nonneg _))
  abs_nonneg _ := decide_eq_false (Int.not_lt.mpr (Int.natCast_nonneg _))

end Whole

end Winding

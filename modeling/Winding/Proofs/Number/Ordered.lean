import Mathlib
import Winding.Proofs.Number.Exact

/-!
# Ordered numbers

What rounding does not take away: numbers that equal themselves are ordered, and finite ones are
among them (`OrderedScalar`). The machine's own numbers are such a system
(`instOrderedScalarFloat`), and so are whole numbers.
-/

namespace Winding

/-- A number system in which numbers that equal themselves are ordered, the finite ones without
gaps. -/
class OrderedScalar (R : Type) [Scalar R] : Prop where
  isFinite_zero : Scalar.isFinite (Scalar.zero : R) = true
  isNaN_of_isFinite : ∀ a : R, Scalar.isFinite a = true → Scalar.isNaN a = false
  le_refl : ∀ a : R, Scalar.isNaN a = false → Scalar.le a a = true
  le_of_not_lt : ∀ a b : R, Scalar.isNaN a = false → Scalar.isNaN b = false →
    Scalar.lt b a = false → Scalar.le a b = true
  lt_of_not_le : ∀ a b : R, Scalar.isNaN a = false → Scalar.isNaN b = false →
    Scalar.le b a = false → Scalar.lt a b = true
  isFinite_of_between : ∀ a b c : R, Scalar.lt a b = true → Scalar.le b c = true →
    Scalar.isFinite a = true → Scalar.isFinite c = true → Scalar.isFinite b = true

/-! ## The smaller of two numbers -/

namespace Scalar

variable {R : Type} [Scalar R] [OrderedScalar R] {a m : R}

open OrderedScalar

/-- Whatever is capped at a finite number, be it no number at all, is not above it. -/
theorem min_le (a : R) (finite : isFinite m = true) : le (min a m) m = true := by
  have number := isNaN_of_isFinite m finite
  unfold min
  rw [number]
  by_cases nan : isNaN a = true
  · rw [if_pos nan]
    exact le_refl m number
  · rw [if_neg nan, if_neg Bool.false_ne_true]
    by_cases above : lt m a = true
    · rw [if_pos above]
      exact le_refl m number
    · rw [if_neg above]
      exact le_of_not_lt a m (eq_false_of_ne_true nan) number (eq_false_of_ne_true above)

/-- A number above zero that is capped at a finite one above zero is finite and above zero. -/
theorem min_usable (finite : isFinite m = true) (pos : positive m = true)
    (above : isNaN a = false → positive a = true) :
    isFinite (min a m) = true ∧ positive (min a m) = true := by
  have le := min_le a finite
  have number := isNaN_of_isFinite m finite
  unfold min at le ⊢
  rw [number] at le ⊢
  by_cases nan : isNaN a = true
  · rw [if_pos nan]
    exact ⟨finite, pos⟩
  · have above := above (eq_false_of_ne_true nan)
    rw [if_neg nan, if_neg Bool.false_ne_true] at le ⊢
    by_cases greater : lt m a = true
    · rw [if_pos greater]
      exact ⟨finite, pos⟩
    · rw [if_neg greater] at le ⊢
      exact ⟨isFinite_of_between zero a m above le isFinite_zero finite, above⟩

end Scalar

/-! ## The numbers of the machine -/

namespace Binary

open Float.Model Float.Model.UnpackedFloat

theorem compare_self {a : UnpackedFloat} (h : a ≠ .notANumber) : a.compare a = some .eq := by
  cases a with
  | notANumber => exact absurd rfl h
  | infinity s => cases s <;> rfl
  | zero s => rfl
  | finite s m e pos => cases s <;> simp [UnpackedFloat.compare]

/-- Two numbers compare the other way round when they are exchanged. -/
theorem compare_swap (a b : UnpackedFloat) : (a.compare b).map Ordering.swap = b.compare a := by
  cases a with
  | notANumber => cases b <;> rfl
  | infinity s =>
    cases b with
    | infinity t => cases s <;> cases t <;> rfl
    | notANumber | zero | finite => cases s <;> rfl
  | zero s =>
    cases b with
    | notANumber | zero => rfl
    | infinity t => cases t <;> rfl
    | finite t => cases t <;> rfl
  | finite s m e pos =>
    cases b with
    | notANumber => rfl
    | infinity t => cases t <;> cases s <;> rfl
    | zero t => cases s <;> rfl
    | finite t n f _ =>
      have exchanged : ((compare e f).then (compare m n)).swap =
          (compare f e).then (compare n m) := by
        rw [Ordering.swap_then, ← Std.OrientedCmp.eq_swap, ← Std.OrientedCmp.eq_swap]
      cases s with
      | negative =>
        cases t with
        | negative =>
          simp only [UnpackedFloat.compare, Option.map_some, exchanged]
        | positive => rfl
      | positive =>
        cases t with
        | negative => rfl
        | positive => simp only [UnpackedFloat.compare, Option.map_some, exchanged]

theorem exists_compare {a b : UnpackedFloat} (ha : a ≠ .notANumber) (hb : b ≠ .notANumber) :
    ∃ o, a.compare b = some o := by
  cases a with
  | notANumber => exact absurd rfl ha
  | infinity s =>
    cases b with
    | notANumber => exact absurd rfl hb
    | infinity t => exact ⟨_, rfl⟩
    | zero | finite => cases s <;> exact ⟨_, rfl⟩
  | zero s =>
    cases b with
    | notANumber => exact absurd rfl hb
    | zero => exact ⟨_, rfl⟩
    | infinity t | finite t => cases t <;> exact ⟨_, rfl⟩
  | finite s =>
    cases b with
    | notANumber => exact absurd rfl hb
    | zero => cases s <;> exact ⟨_, rfl⟩
    | infinity t | finite t => cases s <;> cases t <;> exact ⟨_, rfl⟩

variable {a b c : UnpackedFloat}

/-- A number does not equal itself exactly if it is none. -/
theorem beq_self_iff : a.beq a = true ↔ a ≠ .notANumber := by
  refine ⟨?_, fun h => ?_⟩
  · rintro h rfl
    cases h
  · rw [UnpackedFloat.beq, compare_self h]
    rfl

theorem le_of_not_lt (ha : a ≠ .notANumber) (hb : b ≠ .notANumber) (h : b.lt a = false) :
    a.le b = true := by
  obtain ⟨o, ho⟩ := exists_compare hb ha
  have swapped := compare_swap b a
  rw [ho, Option.map_some] at swapped
  rw [UnpackedFloat.lt, ho] at h
  rw [UnpackedFloat.le, ← swapped]
  cases o with
  | lt => cases h
  | eq | gt => rfl

theorem lt_of_not_le (ha : a ≠ .notANumber) (hb : b ≠ .notANumber) (h : b.le a = false) :
    a.lt b = true := by
  obtain ⟨o, ho⟩ := exists_compare hb ha
  have swapped := compare_swap b a
  rw [ho, Option.map_some] at swapped
  rw [UnpackedFloat.le, ho] at h
  rw [UnpackedFloat.lt, ← swapped]
  cases o with
  | lt | eq => cases h
  | gt => rfl

/-- Nothing infinite lies between finite numbers. -/
theorem isFinite_of_between (lt : a.lt b = true) (le : b.le c = true) (ha : a.isFinite = true)
    (hc : c.isFinite = true) : b.isFinite = true := by
  cases b with
  | zero | finite => rfl
  | notANumber => cases le
  | infinity s =>
    cases s with
    | negative =>
      cases a with
      | notANumber | infinity => cases ha
      | zero | finite => cases lt
    | positive =>
      cases c with
      | notANumber | infinity => cases hc
      | zero | finite => cases le

end Binary

namespace Scalar

open Float.Model

/-- What a number of the machine stands for. -/
def unpacked (x : Float) : UnpackedFloat := x.toModel.unpack

theorem lt_float (x y : Float) : lt x y = (unpacked x).lt (unpacked y) := by
  show decide (decide ((unpacked x).lt (unpacked y) = true) = true) = _
  simp only [Bool.decide_eq_true]

theorem le_float (x y : Float) : le x y = (unpacked x).le (unpacked y) := by
  show decide (decide ((unpacked x).le (unpacked y) = true) = true) = _
  simp only [Bool.decide_eq_true]

theorem isNaN_float {x : Float} : isNaN x = false ↔ unpacked x ≠ .notANumber := by
  show (!(unpacked x).beq (unpacked x)) = false ↔ _
  rw [Bool.not_eq_false', Binary.beq_self_iff]

theorem isFinite_float (x : Float) : isFinite x = (unpacked x).isFinite := rfl

end Scalar

open Scalar in
instance instOrderedScalarFloat : OrderedScalar Float where
  isFinite_zero := by decide +kernel
  isNaN_of_isFinite x h := by
    rw [isFinite_float] at h
    rw [isNaN_float]
    intro none
    rw [none] at h
    cases h
  le_refl x h := by
    rw [isNaN_float] at h
    rw [le_float, Float.Model.UnpackedFloat.le, Binary.compare_self h]
    rfl
  le_of_not_lt x y hx hy h := by
    rw [isNaN_float] at hx hy
    rw [lt_float] at h
    rw [le_float]
    exact Binary.le_of_not_lt hx hy h
  lt_of_not_le x y hx hy h := by
    rw [isNaN_float] at hx hy
    rw [le_float] at h
    rw [lt_float]
    exact Binary.lt_of_not_le hx hy h
  isFinite_of_between x y z lt le hx hz := by
    rw [lt_float] at lt
    rw [le_float] at le
    exact Binary.isFinite_of_between lt le hx hz

instance : OrderedScalar Whole where
  isFinite_zero := rfl
  isNaN_of_isFinite a _ := by simp [Scalar.isNaN]
  le_refl a _ := decide_eq_true (Int.le_refl _)
  le_of_not_lt a b _ _ h := decide_eq_true (Int.not_lt.mp (of_decide_eq_false h))
  lt_of_not_le a b _ _ h := decide_eq_true (Int.not_le.mp (of_decide_eq_false h))
  isFinite_of_between _ _ _ _ _ _ _ := rfl

end Winding

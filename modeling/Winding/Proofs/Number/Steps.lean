import Winding.Proofs.Number.Lengths

/-!
# Steps from number to number

The step from one number to the next is their difference, which is rounded. Its side of zero is kept
all the same (`SteppedScalar`): the step between two finite numbers is zero only where neither is
below the other, and below zero only where it leads down. For the numbers of the machine this is one
equation (`Binary.compare_sub`): the difference compares with zero as the two numbers do with each
other. Mantissas are aligned without loss, and a mantissa above zero is not rounded to zero, since
every difference has the least exponent or more (`Binary.round_eq_finite`).
-/

namespace Winding

/-- A legible number system in which the step between finite numbers is on the right side of
zero. -/
class SteppedScalar (R : Type) [Scalar R] : Prop extends LegibleScalar R where
  sub_lt_zero : ∀ a b : R, Scalar.isFinite a = true → Scalar.isFinite b = true →
    Scalar.lt (a - b) Scalar.zero = Scalar.lt a b
  sub_beq_zero : ∀ a b : R, Scalar.isFinite a = true → Scalar.isFinite b = true →
    (a - b == Scalar.zero) = (!Scalar.lt a b && !Scalar.lt b a)

namespace LegibleScalar

variable {R : Type} [Scalar R] [LegibleScalar R] {a b c : R}

theorem lt_asymm (h : Scalar.lt a b = true) : Scalar.lt b a = false :=
  not_lt_of_lt a b a h (lt_irrefl a)

theorem lt_trans (h : Scalar.lt a b = true) (h' : Scalar.lt b c = true) :
    Scalar.lt a c = true := by
  by_contra none
  rw [not_lt_of_lt a b c h (eq_false_of_ne_true none)] at h'
  cases h'

end LegibleScalar

namespace Binary

open Float.Model Float.Model.UnpackedFloat

variable {s t : Sign} {m n : Nat} {e f : Int}

/-! ## Aligned mantissas -/

/-- A mantissa that fits the format and is full, but for the least exponent. -/
structure IsCanonical (m : Nat) (e : Int) : Prop where
  pos : 0 < m
  below : m < 2 ^ 53
  least : -1074 ≤ e
  full : 2 ^ 52 ≤ m ∨ e = -1074

/-- The larger exponent belongs to the larger number. -/
theorem IsCanonical.aligned_lt (h : IsCanonical m e) (h' : IsCanonical n f) (below : e < f) :
    m * 2 ^ (e - min e f).toNat < n * 2 ^ (f - min e f).toNat := by
  have same : (e - min e f).toNat = 0 := by omega
  obtain ⟨k, gap⟩ : ∃ k, (f - min e f).toNat = k + 1 := ⟨(f - min e f).toNat - 1, by omega⟩
  have full : 2 ^ 52 ≤ n := by
    have := h.least
    exact h'.full.resolve_right (by omega)
  rw [same, Nat.pow_zero, Nat.mul_one, gap]
  calc m < 2 ^ 52 * 2 ^ 1 := h.below
    _ ≤ n * 2 ^ (k + 1) := Nat.mul_le_mul full (Nat.pow_le_pow_right (by decide) (by omega))

/-- Mantissas at one exponent compare as the exponents and then the mantissas do. -/
theorem IsCanonical.compare_aligned (h : IsCanonical m e) (h' : IsCanonical n f) :
    compare (m * 2 ^ (e - min e f).toNat) (n * 2 ^ (f - min e f).toNat) =
      (compare e f).then (compare m n) := by
  rcases lt_trichotomy e f with below | rfl | above
  · rw [compare_lt_iff_lt.mpr below, Ordering.lt_then, compare_lt_iff_lt]
    exact h.aligned_lt h' below
  · rw [compare_eq_iff_eq.mpr rfl, Ordering.eq_then, min_self, Int.sub_self, Int.toNat_zero,
      Nat.pow_zero, Nat.mul_one, Nat.mul_one]
  · rw [compare_gt_iff_gt.mpr above, Ordering.gt_then, compare_gt_iff_gt, min_comm]
    exact h'.aligned_lt h above

theorem compare_congr {α β : Type} [LinearOrder α] [LinearOrder β] {a b : α} {c d : β}
    (lt : a < b ↔ c < d) (gt : b < a ↔ d < c) : compare a b = compare c d := by
  rcases lt_trichotomy c d with below | equal | above
  · rw [compare_lt_iff_lt.mpr below, compare_lt_iff_lt.mpr (lt.mpr below)]
  · have same : a = b := by
      apply le_antisymm
      · exact not_lt.mp fun above => (gt.mp above).ne' equal
      · exact not_lt.mp fun below => (lt.mp below).ne equal
    rw [compare_eq_iff_eq.mpr equal, compare_eq_iff_eq.mpr same]
  · rw [compare_gt_iff_gt.mpr above, compare_gt_iff_gt.mpr (gt.mpr above)]

/-- Whole numbers with signs compare as numbers with these signs do. -/
theorem compare_apply (some : 0 < m) (some' : 0 < n) :
    compare (s.apply m) (t.apply n) = match s, t with
      | .negative, .negative => (compare m n).swap
      | .negative, .positive => .lt
      | .positive, .negative => .gt
      | .positive, .positive => compare m n := by
  cases s with
  | negative =>
    cases t with
    | negative =>
      rw [← Std.OrientedCmp.eq_swap]
      apply compare_congr
      · show -(m : Int) < -(n : Int) ↔ n < m
        omega
      · show -(n : Int) < -(m : Int) ↔ m < n
        omega
    | positive =>
      rw [compare_lt_iff_lt]
      show -(m : Int) < (n : Int)
      omega
  | positive =>
    cases t with
    | negative =>
      rw [compare_gt_iff_gt]
      show -(n : Int) < (m : Int)
      omega
    | positive => exact compare_congr Int.ofNat_lt Int.ofNat_lt

theorem IsCanonical.compare_finite (h : IsCanonical m e) (h' : IsCanonical n f) :
    (UnpackedFloat.finite s m e h.pos).compare (.finite t n f h'.pos) =
      some (compare (s.apply (m * 2 ^ (e - min e f).toNat : Nat))
        (t.apply (n * 2 ^ (f - min e f).toNat : Nat))) := by
  have pos := Nat.mul_pos h.pos (Nat.two_pow_pos (e - min e f).toNat)
  have pos' := Nat.mul_pos h'.pos (Nat.two_pow_pos (f - min e f).toNat)
  rw [compare_apply pos pos', h.compare_aligned h']
  cases s <;> cases t <;> rfl

/-! ## Rounding -/

theorem mantissa_shiftRight (x : ExtendedMantissa) (k : Nat) :
    (x >>> k).mantissa = x.mantissa / 2 ^ k := by
  induction k with
  | zero => exact (Nat.div_one _).symm
  | succ k ih =>
    rw [Nat.pow_succ, ← Nat.div_div_eq_div_mul, ← ih]
    rfl

theorem mantissa_ofMantissaAndAccuracy (m : Nat) (accuracy : Accuracy) :
    (ExtendedMantissa.ofMantissaAndAccuracy m accuracy).mantissa = m := by
  cases accuracy with
  | exact => rfl
  | inexact half => cases half <;> rfl

theorem le_roundedMantissa (x : ExtendedMantissa) : x.mantissa ≤ x.roundedMantissa := by
  obtain ⟨m, half, rest⟩ := x
  cases half <;> cases rest
  · exact Nat.le_refl m
  · exact Nat.le_refl m
  · exact Nat.le_add_right m (m % 2)
  · exact Nat.le_add_right m 1

/-- A mantissa above zero that is moved to its place is above zero still, and fits. -/
theorem shiftToTargetExponent_bounds (some : 0 < m) (least : -1074 ≤ e) (accuracy : Accuracy) :
    let (x, k) := shiftToTargetExponent .binary64 m e accuracy
    0 < x.mantissa ∧ x.mantissa < 2 ^ 53 ∧ -1074 ≤ k := by
  have low : 2 ^ m.log2 ≤ m := Nat.log2_self_le (Nat.ne_of_gt some)
  have high : m < 2 ^ (m.log2 + 1) := Nat.lt_log2_self
  have target : Format.binary64.targetExponent (totalExponent m e) =
      max (m.log2 + 1 + e - 53) (-1074) := rfl
  have shifted : (Format.binary64.targetExponent (totalExponent m e) - e).toNat =
      m.log2 - 52 := by
    rw [target]
    omega
  unfold shiftToTargetExponent shiftToExponent
  simp only [mantissa_shiftRight, mantissa_ofMantissaAndAccuracy, shifted]
  refine ⟨?_, ?_, by omega⟩
  · refine Nat.div_pos (Nat.le_trans ?_ low) (Nat.two_pow_pos _)
    exact Nat.pow_le_pow_right (by decide) (Nat.sub_le ..)
  · rw [Nat.div_lt_iff_lt_mul (Nat.two_pow_pos _), ← Nat.pow_add]
    exact Nat.lt_of_lt_of_le high (Nat.pow_le_pow_right (by decide) (by omega))

/-- What is not zero is not rounded to zero where it has the least exponent or more. -/
theorem round_eq_finite (s : Sign) (some : 0 < m) (least : -1074 ≤ e) :
    ∃ n k, ∃ pos : 0 < n, UnpackedFloat.round .binary64 s m e = .finite s n k pos ∧
      n < 2 ^ 53 ∧ -1074 ≤ k := by
  unfold UnpackedFloat.round
  have target : -1074 ≤ Format.binary64.targetExponent (totalExponent m e) :=
    Int.le_max_right ..
  have some' : 0 < (decreaseExponent m e
      (Format.binary64.targetExponent (totalExponent m e))).1 := by
    rw [decreaseExponent, Nat.shiftLeft_eq]
    exact Nat.mul_pos some (Nat.two_pow_pos _)
  have least' : -1074 ≤ (decreaseExponent m e
      (Format.binary64.targetExponent (totalExponent m e))).2 := by
    rw [decreaseExponent]
    simp only
    omega
  simp only
  generalize decreaseExponent m e _ = p at some' least'
  obtain ⟨m', e'⟩ := p
  unfold roundWithAccuracy
  obtain ⟨first, -, least₁⟩ := shiftToTargetExponent_bounds some' least' .exact
  have rounded := Nat.lt_of_lt_of_le first (le_roundedMantissa _)
  obtain ⟨second, fits, least₂⟩ := shiftToTargetExponent_bounds rounded least₁ .exact
  exact ⟨_, _, second, dif_neg (Nat.ne_of_gt second), fits, least₂⟩

/-! ## Sides of zero -/

/-- What a sign says of a number that is not zero. -/
def sideOf : Sign → Ordering
  | .negative => .lt
  | .positive => .gt

/-- Bits with a sign compare with zero by their sign, unless they are those of zero or of no
number. -/
theorem compare_zero_packComponents (s : Sign)
    {exponent : BitVec Format.binary64.exponentBits}
    {mantissa : BitVec Format.binary64.mantissaBitsWithoutImplicit}
    (ones : exponent = (-1#_) → mantissa = 0#_) (some : exponent = 0#_ → mantissa ≠ 0#_) :
    (UnpackedFloat.unpack .binary64 (packComponents .binary64 s exponent mantissa)).compare
      (.zero .positive) = Option.some (sideOf s) := by
  have sign : Sign.ofBitVec s.toBitVec = s := by cases s <;> rfl
  unfold UnpackedFloat.unpack
  simp only [unpackSign_packComponents, unpackExponent_packComponents,
    unpackMantissa_packComponents, sign]
  split
  · next all =>
    rw [if_pos (ones all)]
    cases s <;> rfl
  · split
    · next none =>
      rw [dif_neg (some none)]
      cases s <;> rfl
    · cases s <;> rfl

/-- Bits of a number that fits are those of no other number. -/
theorem ofNat_ne {width n : Nat} {bits : BitVec width} (fits : n < 2 ^ width)
    (other : n ≠ bits.toNat) : BitVec.ofNat width n ≠ bits := by
  rintro rfl
  rw [BitVec.toNat_ofNat, Nat.mod_eq_of_lt fits] at other
  exact other rfl

/-- What fits the format is packed on its own side of zero, be it too large to stay finite. -/
theorem compare_zero_pack (s : Sign) (pos : 0 < m) (below : m < 2 ^ 53) (least : -1074 ≤ e) :
    (UnpackedFloat.unpack .binary64 (UnpackedFloat.pack .binary64 (.finite s m e pos))).compare
      (.zero .positive) = some (sideOf s) := by
  have biased : (e + Format.binary64.exponentBias +
      Format.binary64.mantissaBitsWithoutImplicit).toNat = (e + 1075).toNat := by
    show (e + 1023 + 52).toNat = _
    omega
  unfold UnpackedFloat.pack
  simp only [biased]
  split
  · exact compare_zero_packComponents s (fun _ => rfl) nofun
  · next room =>
    have room : (e + 1075).toNat + 1 < 2048 := Nat.lt_of_not_le room
    split
    · -- The exponent of a full mantissa is neither zero nor the largest.
      have fits : (e + 1075).toNat < 2 ^ 11 := by omega
      have finite : (e + 1075).toNat ≠ 2047 := by omega
      have some : (e + 1075).toNat ≠ 0 := by omega
      exact compare_zero_packComponents s (fun ones => absurd ones (ofNat_ne fits finite))
        (fun none => absurd none (ofNat_ne fits some))
    · next subnormal =>
      have fits : m < 2 ^ 52 := by
        have log : m.log2 < 53 := (Nat.log2_lt (Nat.ne_of_gt pos)).mpr below
        have other : m.log2 + 1 ≠ 53 := subnormal
        exact (Nat.log2_lt (Nat.ne_of_gt pos)).mp (by omega)
      exact compare_zero_packComponents s nofun fun _ => ofNat_ne fits (Nat.ne_of_gt pos)

theorem compare_zero_pack_zero (s : Sign) :
    (UnpackedFloat.unpack .binary64 (UnpackedFloat.pack .binary64 (.zero s))).compare
      (.zero .positive) = some .eq := by
  cases s <;> decide

/-! ## Differences -/

/-- Finite numbers as they are unpacked. -/
inductive Unpacked : UnpackedFloat → Prop
  | zero (s : Sign) : Unpacked (.zero s)
  | finite (s : Sign) {m : Nat} {e : Int} (canonical : IsCanonical m e) :
    Unpacked (.finite s m e canonical.pos)

theorem unpacked_of_isFinite {b : BitVec Format.binary64.numBits}
    (h : (UnpackedFloat.unpack .binary64 b).isFinite = true) :
    Unpacked (UnpackedFloat.unpack .binary64 b) := by
  have ones := exponent_of_isFinite h
  have small : (unpackMantissa b).toNat < 2 ^ 52 := (unpackMantissa b).isLt
  unfold UnpackedFloat.unpack
  simp only [if_neg ones]
  by_cases subnormal : unpackExponent b = 0#_
  · rw [if_pos subnormal]
    by_cases none : unpackMantissa b = 0#_
    · rw [dif_pos none]
      exact .zero _
    · rw [dif_neg none]
      have some : (unpackMantissa b).toNat ≠ 0 := fun zero => none (BitVec.eq_of_toNat_eq zero)
      rw [subnormal]
      exact .finite _ ⟨Nat.pos_of_ne_zero some, by omega, Int.le_refl _, .inr rfl⟩
  · rw [if_neg subnormal]
    have implicit := toNat_implicit b
    have some : (unpackExponent b).toNat ≠ 0 := fun zero => subnormal (BitVec.eq_of_toNat_eq zero)
    refine .finite _ ⟨by omega, by omega, ?_, .inl (by omega)⟩
    show -1074 ≤ ((unpackExponent b).toNat : Int) - (1023 + 52)
    omega

/-- A whole number at an exponent of the format is rounded on its own side of zero. -/
theorem compare_zero_normalize (c : Int) (least : -1074 ≤ e) :
    (UnpackedFloat.unpack .binary64 (UnpackedFloat.pack .binary64
      (UnpackedFloat.normalize .binary64 c e .positive))).compare (.zero .positive) =
        some (compare c 0) := by
  unfold UnpackedFloat.normalize
  split
  · next below =>
    have below := compare_lt_iff_lt.mp below
    obtain ⟨n, k, pos, rounded, fits, least⟩ :=
      round_eq_finite (m := (-c).toNat) .negative (by omega) least
    rw [rounded, compare_lt_iff_lt.mpr below]
    exact compare_zero_pack .negative pos fits least
  · next equal =>
    rw [equal]
    exact compare_zero_pack_zero .positive
  · next above =>
    have above := compare_gt_iff_gt.mp above
    obtain ⟨n, k, pos, rounded, fits, least⟩ :=
      round_eq_finite (m := c.toNat) .positive (by omega) least
    rw [rounded, compare_gt_iff_gt.mpr above]
    exact compare_zero_pack .positive pos fits least

theorem compare_sub_zero (a b : Int) : compare (a - b) 0 = compare a b := by
  apply compare_congr
  · exact sub_neg
  · exact sub_pos

/-- The difference of finite numbers, as it is rounded and packed, compares with zero as the numbers
do with each other. -/
theorem compare_sub {a b : UnpackedFloat} (ha : Unpacked a) (hb : Unpacked b) :
    (UnpackedFloat.unpack .binary64 (UnpackedFloat.pack .binary64 (a.sub .binary64 b))).compare
      (.zero .positive) = a.compare b := by
  cases ha with
  | zero s =>
    cases hb with
    | zero t =>
      unfold UnpackedFloat.sub
      simp only
      split
      · exact compare_zero_pack_zero s
      · exact compare_zero_pack_zero .positive
    | finite t h =>
      have side := compare_zero_pack (-t) h.pos h.below h.least
      cases t
      · exact side
      · exact side
  | finite s h =>
    cases hb with
    | zero t =>
      have side := compare_zero_pack s h.pos h.below h.least
      cases s
      · exact side
      · exact side
    | @finite t n f h' =>
      rw [h.compare_finite h', ← compare_sub_zero]
      unfold UnpackedFloat.sub decreaseExponent
      simp only [Nat.shiftLeft_eq]
      exact compare_zero_normalize _ (Int.le_min.mpr ⟨h.least, h'.least⟩)

end Binary

namespace Scalar

open Float.Model

variable {x y : Float}

/-- The step between numbers of the machine is on the side on which they are of each other. -/
theorem compare_unpacked_sub (hx : isFinite x = true) (hy : isFinite y = true) :
    (unpacked (x - y)).compare (.zero .positive) = (unpacked x).compare (unpacked y) :=
  Binary.compare_sub (Binary.unpacked_of_isFinite hx) (Binary.unpacked_of_isFinite hy)

/-- Finite numbers are equal where neither is below the other. -/
theorem compare_eq_float (hx : isFinite x = true) (hy : isFinite y = true) :
    ((unpacked x).compare (unpacked y) == some .eq) = (!lt x y && !lt y x) := by
  obtain ⟨o, compared⟩ := Binary.exists_compare
    (isNaN_float.mp (OrderedScalar.isNaN_of_isFinite x hx))
    (isNaN_float.mp (OrderedScalar.isNaN_of_isFinite y hy))
  rw [lt_float, lt_float, UnpackedFloat.lt, UnpackedFloat.lt,
    ← Binary.compare_swap (unpacked x) (unpacked y), compared]
  cases o <;> rfl

end Scalar

open Scalar in
instance : SteppedScalar Float where
  sub_lt_zero x y hx hy := by
    rw [lt_float, lt_float, unpacked_zero, Float.Model.UnpackedFloat.lt,
      compare_unpacked_sub hx hy]
    rfl
  sub_beq_zero x y hx hy := by
    rw [← compare_eq_float hx hy, ← compare_unpacked_sub hx hy, beq_float, unpacked_zero]
    rfl

end Winding

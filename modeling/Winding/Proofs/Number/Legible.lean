import Winding.Proofs.Number.Ordered
import Winding.Proofs.Number.Texts

/-!
# Numbers that can be kept as texts

What a record keeps of a number is its text. That is enough where finite numbers are read back from
their texts (`LegibleScalar`). The numbers of the machine are: their bits are the fields of a
magnitude (`Scalar.ofFloat_eq`), the magnitude is read back from its shortest decimal, and packed to
the same bits again. What is read back may be added to zero and is the same number still, but for the
sign of a zero (`NeutralScalar`).
-/

namespace Winding

/-! ## Bits -/

namespace BinaryFormat

variable {f : BinaryFormat} {fields : Nat}

/-- A magnitude below the first full one has room for all its places. -/
theorem excess_eq_zero {p magnitude : Nat} (precision : f.precision = p + 1)
    (small : magnitude < 2 ^ p) : f.excess magnitude = 0 := by
  unfold excess
  split
  · rfl
  · next some =>
    have := (Nat.log2_lt some).mpr small
    omega

/-- The fields of a magnitude are those from which it was read. -/
theorem pack_unpack (precision : 0 < f.precision) : f.pack (f.unpack fields) = fields ∧
    2 ^ f.excess (f.unpack fields) ∣ f.unpack fields := by
  obtain ⟨p, hp⟩ : ∃ p, f.precision = p + 1 := ⟨f.precision - 1, by omega⟩
  have split : fields / 2 ^ p * 2 ^ p + fields % 2 ^ p = fields := Nat.div_add_mod' ..
  have fraction : fields % 2 ^ p < 2 ^ p := Nat.mod_lt _ (Nat.two_pow_pos p)
  rw [unpack, hp, Nat.add_sub_cancel]
  generalize fields % 2 ^ p = low at split fraction
  rcases high : fields / 2 ^ p with _ | e
  · -- Below the first full magnitude the fields are the magnitude.
    rw [high, Nat.zero_mul, Nat.zero_add] at split
    rw [if_pos rfl, pack, excess_eq_zero hp fraction, Nat.zero_mul, Nat.pow_zero, Nat.div_one, Nat.zero_add]
    exact ⟨split, Nat.one_dvd _⟩
  · have some : (2 ^ p + low) * 2 ^ e ≠ 0 :=
      Nat.mul_ne_zero (by have := Nat.two_pow_pos p; omega) (Nat.ne_of_gt (Nat.two_pow_pos e))
    have log : ((2 ^ p + low) * 2 ^ e).log2 = p + e := by
      rw [Nat.log2_eq_iff some]
      constructor
      · rw [Nat.pow_add]
        exact Nat.mul_le_mul_right _ (Nat.le_add_right ..)
      · rw [Nat.add_right_comm, Nat.pow_add, Nat.pow_succ]
        exact Nat.mul_lt_mul_of_pos_right (by omega) (Nat.two_pow_pos e)
    have places : f.excess ((2 ^ p + low) * 2 ^ e) = e := by
      rw [excess, if_neg some, log, hp]
      omega
    rw [if_neg (Nat.succ_ne_zero e), Nat.add_sub_cancel, pack, places, hp, Nat.add_sub_cancel,
      Nat.mul_div_cancel _ (Nat.two_pow_pos e)]
    refine ⟨?_, Nat.dvd_mul_left ..⟩
    rw [← split, high, Nat.succ_mul]
    omega

/-- The exponent field bounds the magnitude. -/
theorem holds_unpack
    (bound : fields / 2 ^ (f.precision - 1) + (f.precision - 1) ≤ f.bound) :
    f.holds (f.unpack fields) = true := by
  rw [holds, decide_eq_true_eq, unpack]
  have fraction : fields % 2 ^ (f.precision - 1) < 2 ^ (f.precision - 1) :=
    Nat.mod_lt _ (Nat.two_pow_pos _)
  generalize fields % 2 ^ (f.precision - 1) = low at fraction
  rcases high : fields / 2 ^ (f.precision - 1) with _ | e
  · rw [if_pos rfl]
    exact Nat.lt_of_lt_of_le fraction (Nat.pow_le_pow_right (by decide) (by omega))
  · rw [if_neg (Nat.succ_ne_zero e), Nat.add_sub_cancel]
    calc (2 ^ (f.precision - 1) + low) * 2 ^ e
        < (2 ^ (f.precision - 1) * 2) * 2 ^ e :=
          Nat.mul_lt_mul_of_pos_right (by omega) (Nat.two_pow_pos e)
      _ = 2 ^ (f.precision - 1 + 1 + e) := by rw [← Nat.pow_succ, ← Nat.pow_add]
      _ ≤ 2 ^ f.bound := Nat.pow_le_pow_right (by decide) (by omega)

end BinaryFormat

namespace Binary

open Float.Model Float.Model.UnpackedFloat

variable (b : BitVec Format.binary64.numBits)

/-- The sign, the exponent and the mantissa as parts of the number that the bits write. -/
theorem toNat_unpack : (unpackSign b).toNat = b.toNat / 2 ^ 63 ∧
    (unpackExponent b).toNat = b.toNat / 2 ^ 52 % 2 ^ 11 ∧
    (unpackMantissa b).toNat = b.toNat % 2 ^ 52 := by
  have bound : b.toNat < 2 ^ 64 := b.isLt
  refine ⟨?_, ?_, ?_⟩
  · rw [unpackSign, BitVec.toNat_cast, BitVec.extractLsb_toNat, Nat.shiftRight_eq_div_pow]
    show b.toNat / 2 ^ 63 % 2 ^ 1 = _
    omega
  · rw [unpackExponent, BitVec.toNat_cast, BitVec.extractLsb_toNat, Nat.shiftRight_eq_div_pow]
    rfl
  · rw [unpackMantissa, BitVec.toNat_cast, BitVec.extractLsb_toNat, Nat.shiftRight_eq_div_pow]
    show b.toNat / 2 ^ 0 % 2 ^ 52 = _
    rw [Nat.pow_zero, Nat.div_one]

/-- The implicit bit stands before the mantissa. -/
theorem toNat_implicit : (1#1 ++ unpackMantissa b).toNat = 2 ^ 52 + (unpackMantissa b).toNat := by
  rw [BitVec.toNat_append, ← Nat.shiftLeft_add_eq_or_of_lt (unpackMantissa b).isLt,
    Nat.shiftLeft_eq]
  rfl

theorem packComponents_unpack : packComponents .binary64 (Sign.ofBitVec (unpackSign b))
    (unpackExponent b) (unpackMantissa b) = b := by
  obtain ⟨sign, exponent, mantissa⟩ := toNat_unpack b
  have signs (v : BitVec 1) : (Sign.ofBitVec v).toBitVec = v := by
    revert v
    decide
  apply BitVec.eq_of_toNat_eq
  rw [packComponents, signs, BitVec.toNat_append, BitVec.toNat_append, sign, exponent, mantissa,
    ← Nat.shiftLeft_add_eq_or_of_lt (Nat.mod_lt _ (by decide)),
    ← Nat.shiftLeft_add_eq_or_of_lt (Nat.mod_lt _ (by decide)), Nat.shiftLeft_eq, Nat.shiftLeft_eq]
  show (b.toNat / 2 ^ 63 * 2 ^ 11 + b.toNat / 2 ^ 52 % 2 ^ 11) * 2 ^ 52 + b.toNat % 2 ^ 52 = _
  omega

variable {b}

theorem exponent_of_isFinite (h : (UnpackedFloat.unpack .binary64 b).isFinite = true) :
    unpackExponent b ≠ (-1#_) := by
  intro ones
  unfold UnpackedFloat.unpack at h
  simp only [if_pos ones] at h
  split at h
  · cases h
  · cases h

/-- Finite bits are packed again as they were. -/
theorem pack_unpack (h : (UnpackedFloat.unpack .binary64 b).isFinite = true) :
    UnpackedFloat.pack .binary64 (UnpackedFloat.unpack .binary64 b) = b := by
  have ones := exponent_of_isFinite h
  have whole := packComponents_unpack b
  obtain ⟨-, exponent, mantissa⟩ := toNat_unpack b
  have log {n : Nat} (some : n ≠ 0) (small : n < 2 ^ 52) :
      n.log2 + 1 ≠ Format.binary64.mantissaBits := by
    have := (Nat.log2_lt some).mpr small
    show n.log2 + 1 ≠ 53
    omega
  unfold UnpackedFloat.unpack
  simp only [if_neg ones]
  -- Zero and the numbers below the first full mantissa have no implicit bit; all others have one.
  by_cases subnormal : unpackExponent b = 0#_
  · rw [if_pos subnormal]
    by_cases zero : unpackMantissa b = 0#_
    · rw [dif_pos zero, UnpackedFloat.pack, packedZero]
      rw [subnormal, zero] at whole
      exact whole
    · have some : (unpackMantissa b).toNat ≠ 0 := fun none => zero (BitVec.eq_of_toNat_eq none)
      rw [dif_neg zero, UnpackedFloat.pack]
      simp only [subnormal]
      rw [if_neg (by decide), if_neg (log some (by rw [mantissa]; exact Nat.mod_lt _ (by decide))),
        BitVec.ofNat_toNat, BitVec.setWidth_eq, ← subnormal]
      exact whole
  · have small : (unpackMantissa b).toNat < 2 ^ 52 := (unpackMantissa b).isLt
    have below : (unpackExponent b).toNat < 2047 := by
      have bound : (unpackExponent b).toNat < 2048 := (unpackExponent b).isLt
      have other : (unpackExponent b).toNat ≠ 2047 := fun e => ones (BitVec.eq_of_toNat_eq e)
      omega
    have implicit := toNat_implicit b
    have full : (2 ^ 52 + (unpackMantissa b).toNat).log2 + 1 = Format.binary64.mantissaBits := by
      have := (Nat.log2_eq_iff (k := 52) (by omega : 2 ^ 52 + (unpackMantissa b).toNat ≠ 0)).mpr
        ⟨by omega, by omega⟩
      show _ = 53
      omega
    have biased : (((unpackExponent b).toNat : Int) - (Format.binary64.exponentBias +
        Format.binary64.mantissaBitsWithoutImplicit) + Format.binary64.exponentBias +
        Format.binary64.mantissaBitsWithoutImplicit).toNat = (unpackExponent b).toNat := by
      omega
    have room : ¬2 ^ Format.binary64.exponentBits ≤ (unpackExponent b).toNat + 1 := by
      show ¬2048 ≤ _
      omega
    have fraction : BitVec.ofNat 52 (2 ^ 52 + (unpackMantissa b).toNat) = unpackMantissa b := by
      apply BitVec.eq_of_toNat_eq
      rw [BitVec.toNat_ofNat, Nat.add_mod_left, Nat.mod_eq_of_lt small]
    rw [if_neg subnormal, UnpackedFloat.pack]
    simp only [implicit, biased]
    rw [if_neg room, if_pos full, BitVec.ofNat_toNat, BitVec.setWidth_eq, fraction]
    exact whole

end Binary

namespace Scalar

open Binary

variable {x : Float}

theorem ofBits_toBits (h : isFinite x = true) : Float.ofBits x.toBits = x := by
  obtain ⟨⟨bits, valid⟩⟩ := x
  have packed := pack_unpack (b := bits.toBitVec) h
  simp only [Float.ofBits, Float.toBits, Float.Model.ofBits, Float.Model.pack, packed]

/-- A finite number is a magnitude that its format has. -/
theorem ofFloat_eq (h : isFinite x = true) : ∃ negative magnitude,
    BinaryNumber.ofFloat x = .finite negative magnitude ∧
      2 ^ BinaryFormat.double.excess magnitude ∣ magnitude ∧
      BinaryFormat.double.holds magnitude = true ∧
      (BinaryNumber.finite negative magnitude).toFloat = x := by
  have bound : x.toBits.toNat < 2 ^ 64 := x.toBits.toNat_lt
  have exponent : x.toBits.toNat / 2 ^ 52 % 2 ^ 11 ≠ 2047 := by
    intro ones
    refine exponent_of_isFinite (b := x.toBits.toBitVec) h (BitVec.eq_of_toNat_eq ?_)
    rw [(toNat_unpack _).2.1]
    exact ones
  have infinity : BinaryFormat.double.infinity = 2047 * 2 ^ 52 := by decide +kernel
  generalize e : x.toBits.toNat = bits at bound exponent
  have fields : bits % 2 ^ 63 < BinaryFormat.double.infinity := by
    rw [infinity]
    omega
  obtain ⟨packed, divides⟩ : BinaryFormat.double.pack (BinaryFormat.double.unpack (bits % 2 ^ 63)) =
      bits % 2 ^ 63 ∧ _ := BinaryFormat.pack_unpack (by decide)
  refine ⟨decide (2 ^ 63 ≤ bits), BinaryFormat.double.unpack (bits % 2 ^ 63), ?_, divides, ?_, ?_⟩
  · rw [BinaryNumber.ofFloat, BinaryNumber.unpack, e]
    simp only [if_pos fields]
  · refine BinaryFormat.holds_unpack ?_
    show bits % 2 ^ 63 / 2 ^ 52 + 52 ≤ 2098
    omega
  · rw [BinaryNumber.toFloat, BinaryNumber.pack, packed]
    have whole : (if decide (2 ^ 63 ≤ bits) = true then 2 ^ 63 else 0) + bits % 2 ^ 63 = bits := by
      split <;> simp only [decide_eq_true_eq] at * <;> omega
    rw [whole, ← e, Nat.toUInt64, UInt64.ofNat_toNat, ofBits_toBits h]

/-- A finite number is read back from its text. -/
theorem ofText?_text_float (h : isFinite x = true) : ofText? (text x) = some x := by
  obtain ⟨negative, magnitude, e, divides, holds, back⟩ := ofFloat_eq h
  have read := BinaryNumber.ofText?_text (f := .double) (by decide) negative divides holds
  obtain ⟨n, read, value⟩ := Option.map_eq_some_iff.mp read
  have written : text x = (BinaryNumber.finite negative magnitude).text .double := by
    rw [← e]
    rfl
  rw [ofText?, written, read, Option.bind_some]
  show some (BinaryNumber.ofNumeral .double n).toFloat = some x
  rw [value, back]

end Scalar

/-! ## Numbers that are kept -/

/-- Numbers that can be kept as texts: what is finite is read back, and the order is one in which
what is above a length is one. -/
class LegibleScalar (R : Type) [Scalar R] : Prop where
  ofText?_text : ∀ a : R, Scalar.isFinite a = true → Scalar.ofText? (Scalar.text a) = some a
  lt_irrefl : ∀ a : R, Scalar.lt a a = false
  not_lt_of_lt : ∀ a b c : R, Scalar.lt a b = true → Scalar.lt a c = false → Scalar.lt b c = false

namespace Binary

open Float.Model Float.Model.UnpackedFloat

/-- Where a number stands in the order: its sign or infinity first, then the exponent and the
mantissa. -/
def rank : UnpackedFloat → Lex (Int × Lex (Int × Int))
  | .notANumber => toLex (0, toLex (0, 0))
  | .infinity .negative => toLex (-2, toLex (0, 0))
  | .infinity .positive => toLex (2, toLex (0, 0))
  | .zero _ => toLex (0, toLex (0, 0))
  | .finite .negative m e _ => toLex (-1, toLex (-e, -m))
  | .finite .positive m e _ => toLex (1, toLex (e, m))

theorem ne_notANumber_of_lt {a b : UnpackedFloat} (h : a.lt b = true) :
    a ≠ .notANumber ∧ b ≠ .notANumber := by
  rw [UnpackedFloat.lt, beq_iff_eq] at h
  constructor
  · rintro rfl
    cases h
  · rintro rfl
    cases a <;> cases h

theorem lt_iff_rank {a b : UnpackedFloat} (ha : a ≠ .notANumber) (hb : b ≠ .notANumber) :
    a.lt b = true ↔ rank a < rank b := by
  rw [UnpackedFloat.lt, beq_iff_eq]
  cases a with
  | notANumber => exact absurd rfl ha
  | infinity s =>
    cases b with
    | notANumber => exact absurd rfl hb
    | infinity t => cases s <;> cases t <;> decide
    | zero t => cases s <;> simp [UnpackedFloat.compare, rank, Prod.Lex.toLex_lt_toLex]
    | finite t =>
      cases s <;> cases t <;> simp [UnpackedFloat.compare, rank, Prod.Lex.toLex_lt_toLex]
  | zero s =>
    cases b with
    | notANumber => exact absurd rfl hb
    | infinity t => cases t <;> simp [UnpackedFloat.compare, rank, Prod.Lex.toLex_lt_toLex]
    | zero t => simp [UnpackedFloat.compare, rank]
    | finite t => cases t <;> simp [UnpackedFloat.compare, rank, Prod.Lex.toLex_lt_toLex]
  | finite s m e =>
    cases b with
    | notANumber => exact absurd rfl hb
    | infinity t =>
      cases s <;> cases t <;> simp [UnpackedFloat.compare, rank, Prod.Lex.toLex_lt_toLex]
    | zero t => cases s <;> simp [UnpackedFloat.compare, rank, Prod.Lex.toLex_lt_toLex]
    | finite t n f =>
      -- Only numbers of one sign are compared by what stands behind it.
      cases s with
      | negative =>
        cases t with
        | negative =>
          simp [UnpackedFloat.compare, rank, Prod.Lex.toLex_lt_toLex, Ordering.then_eq_gt,
            compare_gt_iff_gt]
        | positive => simp [UnpackedFloat.compare, rank, Prod.Lex.toLex_lt_toLex]
      | positive =>
        cases t with
        | negative => simp [UnpackedFloat.compare, rank, Prod.Lex.toLex_lt_toLex]
        | positive =>
          simp [UnpackedFloat.compare, rank, Prod.Lex.toLex_lt_toLex, Ordering.then_eq_lt,
            compare_lt_iff_lt]

theorem lt_trans {a b c : UnpackedFloat} (h : a.lt b = true) (h' : b.lt c = true) :
    a.lt c = true := by
  obtain ⟨ha, hb⟩ := ne_notANumber_of_lt h
  obtain ⟨-, hc⟩ := ne_notANumber_of_lt h'
  rw [lt_iff_rank ha hb] at h
  rw [lt_iff_rank hb hc] at h'
  rw [lt_iff_rank ha hc]
  exact h.trans h'

theorem lt_irrefl (a : UnpackedFloat) : a.lt a = false := by
  rw [Bool.eq_false_iff]
  intro h
  obtain ⟨ha, -⟩ := ne_notANumber_of_lt h
  rw [lt_iff_rank ha ha] at h
  exact h.ne rfl

end Binary

open Scalar in
instance : LegibleScalar Float where
  ofText?_text _ := ofText?_text_float
  lt_irrefl x := by
    rw [lt_float]
    exact Binary.lt_irrefl _
  not_lt_of_lt x y z h h' := by
    rw [lt_float] at h h' ⊢
    rw [Bool.eq_false_iff] at h' ⊢
    exact fun above => h' (Binary.lt_trans h above)

/-! ## Zero -/

/-- Legible numbers to which zero is added without a change, apart from zeros of both signs: those
become zero. -/
class NeutralScalar (R : Type) [Scalar R] : Prop extends OrderedScalar R, LegibleScalar R where
  add_zero : ∀ a : R, Scalar.isFinite a = true →
    a + Scalar.zero = a ∨ (Scalar.zero == a) = true ∧ a + Scalar.zero = Scalar.zero

namespace NeutralScalar

variable {R : Type} [Scalar R] [NeutralScalar R] {a : R}

theorem isFinite_add_zero (finite : Scalar.isFinite a = true) :
    Scalar.isFinite (a + Scalar.zero) = true := by
  rcases add_zero a finite with same | ⟨-, zero⟩
  · rwa [same]
  · rw [zero]
    exact OrderedScalar.isFinite_zero

theorem beq_self (finite : Scalar.isFinite a = true) : (a == a) = true :=
  (Bool.not_eq_false' ..).mp (OrderedScalar.isNaN_of_isFinite a finite)

/-- The sum with zero equals the number. -/
theorem add_zero_beq (finite : Scalar.isFinite a = true) : (a + Scalar.zero == a) = true := by
  rcases add_zero a finite with same | ⟨equal, zero⟩
  · rw [same]
    exact beq_self finite
  · rwa [zero]

/-- Zero that is added again changes nothing. -/
theorem add_zero_add_zero (finite : Scalar.isFinite a = true) :
    a + Scalar.zero + Scalar.zero = a + Scalar.zero := by
  have zero : (Scalar.zero + Scalar.zero : R) = Scalar.zero :=
    (add_zero Scalar.zero OrderedScalar.isFinite_zero).elim id And.right
  rcases add_zero a finite with same | ⟨-, none⟩
  · rw [same, same]
  · rw [none, zero]

end NeutralScalar

namespace Scalar

open Float.Model

/-- A finite number is made again from what it stands for. -/
theorem pack_unpacked {x : Float} (h : isFinite x = true) :
    (⟨Float.Model.pack (unpacked x)⟩ : Float) = x := ofBits_toBits h

theorem unpacked_zero : unpacked (zero : Float) = .zero .positive := by
  have bits : (zero : Float).toBits = 0 := by decide +kernel
  show UnpackedFloat.unpack .binary64 (zero : Float).toBits.toBitVec = _
  rw [bits]
  rfl

theorem beq_float (x y : Float) : (x == y) = (unpacked x).beq (unpacked y) := rfl

end Scalar

open Scalar in
instance : NeutralScalar Float where
  add_zero x finite := by
    have sum : x + zero =
        ⟨Float.Model.pack ((unpacked x).add .binary64 (unpacked (zero : Float)))⟩ := rfl
    have packed := pack_unpacked finite
    rw [isFinite_float] at finite
    rw [sum, beq_float, unpacked_zero]
    cases e : unpacked x with
    | notANumber | infinity => rw [e] at finite; cases finite
    | finite s m k pos =>
      rw [e] at packed
      exact .inl packed
    | zero s =>
      have none := pack_unpacked (x := zero) (by decide +kernel)
      rw [unpacked_zero] at none
      refine .inr ⟨rfl, ?_⟩
      cases s <;> exact none

end Winding

import Winding.Proofs.Number.Legible
import Winding.Proofs.Number.Plain

/-!
# Sums of lengths

Lengths of wire are added up from zero, and a move that takes no wire adds zero. That changes no sum
of lengths (`MeteredScalar`), where zero and every length are free of a sign: sums of such numbers
are, and zero is added to them without a change (`Scalar.Unsigned`). Exact numbers have no signed
zero at all.
-/

namespace Winding

/-- A number that measures something: a distance, or a size. -/
inductive Scalar.IsLength {R : Type} [Scalar R] : R → Prop
  | distance (a b : R) : IsLength (Scalar.hypot a b)
  | size (a : R) : IsLength (Scalar.abs a)

/-- A number system in which zero is added to sums of lengths without a change. -/
class MeteredScalar (R : Type) [Scalar R] : Prop where
  sum_add_zero : ∀ lengths : List R, (∀ a ∈ lengths, Scalar.IsLength a) →
    Scalar.sum lengths + Scalar.zero = Scalar.sum lengths

instance {R : Type} [Scalar R] [ExactScalar R] : MeteredScalar R where
  sum_add_zero lengths _ := by rw [ExactScalar.add_comm, ExactScalar.zero_add]

/-! ## Numbers without a sign -/

namespace Binary

open Float.Model Float.Model.UnpackedFloat

/-- A number that is not written with a sign, be it no number at all. -/
inductive Unsigned : UnpackedFloat → Prop
  | notANumber : Unsigned .notANumber
  | infinity : Unsigned (.infinity .positive)
  | zero : Unsigned (.zero .positive)
  | finite (mantissa : Nat) (exponent : Int) (some : 0 < mantissa) :
    Unsigned (.finite .positive mantissa exponent some)

variable {a c : UnpackedFloat}

theorem Unsigned.add_zero (h : Unsigned a) : a.add .binary64 (.zero .positive) = a := by
  cases h with
  | notANumber | infinity | zero | finite => rfl

theorem unsigned_round (mantissa : Nat) (exponent : Int) :
    Unsigned (UnpackedFloat.round .binary64 .positive mantissa exponent) := by
  unfold UnpackedFloat.round roundWithAccuracy
  simp only
  split
  · exact .zero
  · exact .finite ..

theorem Unsigned.add (h : Unsigned a) (h' : Unsigned c) : Unsigned (a.add .binary64 c) := by
  cases h with
  | notANumber => exact .notANumber
  | infinity =>
    cases h' with
    | notANumber => exact .notANumber
    | infinity | zero | finite => exact .infinity
  | zero =>
    cases h' with
    | notANumber => exact .notANumber
    | infinity => exact .infinity
    | zero => exact .zero
    | finite => exact .finite ..
  | finite m e pos =>
    cases h' with
    | notANumber => exact .notANumber
    | infinity => exact .infinity
    | zero => exact .finite ..
    | finite n f pos' =>
      unfold UnpackedFloat.add UnpackedFloat.normalize
      simp only
      split
      · next below =>
        -- Mantissas without a sign have no sum below zero.
        exfalso
        rw [compare_lt_iff_lt] at below
        simp only [Sign.apply] at below
        omega
      · exact .zero
      · exact unsigned_round _ _

theorem Unsigned.abs (a : UnpackedFloat) : Unsigned a.abs := by
  cases a with
  | notANumber => exact .notANumber
  | infinity => exact .infinity
  | zero => exact .zero
  | finite => exact .finite ..

/-! ## Bits without a sign -/

variable {b : BitVec Format.binary64.numBits}

theorem unsigned_unpack (h : unpackSign b = 0#1) : Unsigned (UnpackedFloat.unpack .binary64 b) := by
  have sign : Sign.ofBitVec (unpackSign b) = .positive := by rw [h]; rfl
  unfold UnpackedFloat.unpack
  simp only [sign]
  split
  · split
    · exact .infinity
    · exact .notANumber
  · split
    · split
      · exact .zero
      · exact .finite ..
    · exact .finite ..

theorem unpackSign_packComponents (f : Format) (sign : Sign) (exponent : BitVec f.exponentBits)
    (mantissa : BitVec f.mantissaBitsWithoutImplicit) :
    unpackSign (packComponents f sign exponent mantissa) = sign.toBitVec := by
  apply BitVec.eq_of_getLsbD_eq
  intro i hi
  obtain rfl : i = 0 := by omega
  simp [unpackSign, packComponents, BitVec.getLsbD_append, BitVec.getElem_append]

theorem Unsigned.unpackSign_pack (h : Unsigned a) :
    unpackSign (UnpackedFloat.pack .binary64 a) = 0#1 := by
  cases h with
  | notANumber | infinity | zero => exact unpackSign_packComponents ..
  | finite m e pos =>
    unfold UnpackedFloat.pack
    simp only
    split
    · exact unpackSign_packComponents ..
    · split
      · exact unpackSign_packComponents ..
      · exact unpackSign_packComponents ..

/-- Bits are packed again as they were, also where they mean no finite number. -/
theorem pack_unpack_of_valid (valid : Format.binary64.Valid b) :
    UnpackedFloat.pack .binary64 (UnpackedFloat.unpack .binary64 b) = b := by
  by_cases ones : unpackExponent b = (-1#_)
  · have whole := packComponents_unpack b
    unfold UnpackedFloat.unpack
    simp only [if_pos ones]
    split
    · next none =>
      rw [ones, none] at whole
      exact whole
    · next some => exact (valid.eq_packedNaN ones some).symm
  · exact pack_unpack (isFinite_of_exponent ones)

end Binary

namespace Scalar

open Binary

/-- A number of the machine that is not written with a sign. -/
def Unsigned (x : Float) : Prop := Binary.Unsigned (unpacked x)

variable {x y : Float}

theorem unsigned_pack {a : Float.Model.UnpackedFloat} (h : Binary.Unsigned a) :
    Unsigned ⟨Float.Model.pack a⟩ :=
  unsigned_unpack h.unpackSign_pack

theorem unsigned_zero : Unsigned zero := by
  rw [Unsigned, unpacked_zero]
  exact .zero

theorem Unsigned.add (h : Unsigned x) (h' : Unsigned y) : Unsigned (x + y) :=
  unsigned_pack (Binary.Unsigned.add h h')

theorem Unsigned.add_zero (h : Unsigned x) : x + zero = x := by
  have sum : x + zero =
      ⟨Float.Model.pack ((unpacked x).add .binary64 (unpacked (zero : Float)))⟩ := rfl
  rw [sum, unpacked_zero, Binary.Unsigned.add_zero h]
  obtain ⟨⟨bits, valid⟩⟩ := x
  have packed := pack_unpack_of_valid valid
  simp only [unpacked, Float.Model.unpack, Float.Model.pack, packed]

theorem unsigned_ofBits {bits : UInt64} (h : bits.toNat < 2 ^ 63) :
    Unsigned (Float.ofBits bits) := by
  refine unsigned_pack (unsigned_unpack (BitVec.eq_of_toNat_eq ?_))
  rw [(toNat_unpack bits.toBitVec).1]
  exact Nat.div_eq_of_lt h

theorem unsigned_toFloat {n : BinaryNumber} (h : n.pack .double 63 < 2 ^ 63) :
    Unsigned n.toFloat :=
  unsigned_ofBits (by rwa [UInt64.toNat_ofNat_of_lt' (Nat.lt_trans h (by decide))])

theorem unsigned_infinite : Unsigned (BinaryNumber.infinite false).toFloat := by
  apply unsigned_toFloat
  rw [BinaryNumber.pack, BinaryFormat.double_infinity]
  decide

/-- A distance is never written with a sign. -/
theorem unsigned_hypotenuse (m n : BinaryNumber) : Unsigned (m.hypotenuse n).toFloat := by
  unfold BinaryNumber.hypotenuse
  split
  · exact unsigned_infinite
  · exact unsigned_infinite
  · unfold BinaryNumber.ofMagnitude
    split
    · next holds =>
      have fields := BinaryFormat.pack_lt_infinity holds
      apply unsigned_toFloat
      rw [BinaryNumber.pack, if_neg Bool.false_ne_true]
      omega
    · exact unsigned_infinite
  · apply unsigned_toFloat
    rw [BinaryNumber.pack, BinaryFormat.double_infinity]
    decide

theorem IsLength.unsigned (h : IsLength x) : Unsigned x := by
  cases h with
  | distance a b => exact unsigned_hypotenuse _ _
  | size a => exact unsigned_pack (Binary.Unsigned.abs _)

end Scalar

instance : MeteredScalar Float where
  sum_add_zero lengths measured := by
    have sum : Scalar.Unsigned (Scalar.sum lengths) := by
      unfold Scalar.sum
      induction lengths using List.reverseRecOn with
      | nil => exact Scalar.unsigned_zero
      | append_singleton lengths a ih =>
        rw [List.foldl_append]
        have last := measured a (List.mem_append_right _ List.mem_cons_self)
        exact (ih fun c hc => measured c (List.mem_append_left _ hc)).add last.unsigned
    exact sum.add_zero

end Winding

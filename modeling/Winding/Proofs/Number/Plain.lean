import Winding.Gcode.Word
import Winding.Proofs.Number.Legible
import Winding.Proofs.Text.Lines

/-!
# Numbers of recipe words

A recipe writes its numbers as plain decimals, without exponents and without words for what is not
finite. `PlainScalar` says what a reader of such numbers relies on: finite numbers are read back from
their texts, no other number has a text that is read, and whole numbers stay whole as far as a word
can carry them. The numbers of the machine are such numbers (`instPlainScalarFloat`).
-/

namespace Winding

open Gcode (isNumberChar)

/-! ## Plain decimals -/

namespace Decimal

/-- A decimal is read back from its text. -/
theorem ofPlain?_chars (d : Decimal) : ofPlain? d.chars = some d.positional := by
  obtain ⟨-, -, -, -, sign⟩ := d.chars_eq
  rw [ofPlain?, sign]
  rcases d.digitsText_eq with
    ⟨cs, digits, text, value⟩ | ⟨whole, fraction, digits, more, text, value⟩
  · rw [text, value]
    simp only [scan?_digits digits, ofParts, List.append_nil, List.length_nil]
    rfl
  · rw [text, value]
    simp only [scan?_point digits more, ofParts]
    rw [Int.zero_sub]

/-- The digits of a natural number are read as that number. -/
theorem ofPlain?_digitsOf (n : Nat) : ofPlain? (digitsOf n) = some (ofNat n) := by
  have digits := AreDigits.digitsOf n
  have sign : splitSign (digitsOf n) = (false, digitsOf n) := by
    unfold splitSign
    split
    · next e => exact absurd e (digits.ne_cons rfl _)
    · next e => exact absurd e (digits.ne_cons rfl _)
    · rfl
  rw [ofPlain?, sign]
  simp only [scan?_digits digits, ofParts, List.append_nil, natOfDigits_digitsOf]
  rfl

theorem isNumberChar_of_isDigit {c : Char} (h : c.isDigit = true) : isNumberChar c = true := by
  rw [isNumberChar, h]
  rfl

theorem isBlank_of_isNumberChar {c : Char} (h : isNumberChar c = true) : isBlank c = false := by
  unfold isNumberChar at h
  simp only [Bool.or_eq_true, decide_eq_true_eq] at h
  rcases h with ((digit | rfl) | rfl) | rfl
  · exact isBlank_digit digit
  · rfl
  · rfl
  · rfl

theorem scan?_isNumberChar {cs whole fraction : List Char}
    (h : scan? cs = some (whole, fraction, [])) : ∀ c ∈ cs, isNumberChar c = true := by
  have digits (l : List Char) : ∀ c ∈ l.takeWhile Char.isDigit, isNumberChar c = true :=
    fun c hc => isNumberChar_of_isDigit (List.all_eq_true.mp (List.all_takeWhile) c hc)
  simp only [scan?] at h
  rw [← List.takeWhile_append_dropWhile (p := Char.isDigit) (l := cs)]
  split at h
  · next rest e =>
    split at h
    · cases h
    · obtain ⟨-, -, none⟩ : _ ∧ _ ∧ rest.dropWhile Char.isDigit = [] := by simpa using h
      rw [e, ← List.takeWhile_append_dropWhile (p := Char.isDigit) (l := rest), none,
        List.append_nil]
      simp only [List.mem_append, List.mem_cons]
      rintro c (whole | rfl | fraction)
      · exact digits cs c whole
      · rfl
      · exact digits rest c fraction
  · split at h
    · cases h
    · obtain ⟨-, -, none⟩ : _ ∧ _ ∧ cs.dropWhile Char.isDigit = [] := by simpa using h
      rw [none, List.append_nil]
      exact digits cs

/-- A plain decimal is made of the characters of a number. -/
theorem ofPlain?_isNumberChar {cs : List Char} {d : Decimal} (h : ofPlain? cs = some d) :
    ∀ c ∈ cs, isNumberChar c = true := by
  unfold ofPlain? at h
  simp only at h
  split at h
  · next scanned =>
    have body := scan?_isNumberChar scanned
    unfold splitSign at body
    split at body
    · exact List.forall_mem_cons.mpr ⟨rfl, body⟩
    · exact List.forall_mem_cons.mpr ⟨rfl, body⟩
    · exact body
  · cases h

end Decimal

/-! ## Numbers that are written as plain decimals -/

/-- Ordered numbers whose texts are plain decimals where they are finite, and cannot be read as such
where they are not. -/
class PlainScalar (R : Type) [Scalar R] : Prop extends OrderedScalar R where
  ofPlain?_text : ∀ a : R, Scalar.isFinite a = true →
    ∃ d, Decimal.ofPlain? (Scalar.text a).toList = some d ∧ Scalar.ofDecimal d = a
  text_of_not_finite : ∀ a : R, Scalar.isFinite a = false →
    (∀ c ∈ (Scalar.text a).toList, isBlank c = false) ∧
      Decimal.ofPlain? ((Scalar.text a).toList.takeWhile isNumberChar) = none
  not_le_of_lt : ∀ a b : R, Scalar.lt a b = true → Scalar.le b a = false
  isNaN_ofDecimal : ∀ d, Scalar.isNaN (Scalar.ofDecimal d : R) = false
  isFinite_of_beq_zero : ∀ a : R, (a == Scalar.zero) = true → Scalar.isFinite a = true
  whole?_ofNat : ∀ n : Nat, n ≤ 2 ^ 53 → Scalar.whole? (Scalar.ofNat n : R) = some n
  /-- A whole number that a number equals is that number again. -/
  whole?_ofNat_of_whole? : ∀ (a : R) (n : Nat), Scalar.whole? a = some n →
    Scalar.whole? (Scalar.ofNat n : R) = some n
  /-- The greatest whole number of a word may be rounded up once. -/
  whole?_ofNat_greatest : ∃ n : Nat, Scalar.whole? (Scalar.ofNat (2 ^ 63 - 1) : R) = some n ∧
    2 ^ 63 - 1 ≤ n ∧ n ≤ 2 ^ 63

/-! ## The numbers of the machine -/

namespace BinaryFormat

variable {f : BinaryFormat} {magnitude : Nat}

/-- The significand of a magnitude that the format has, with its leading bit. -/
theorem exists_significand {p : Nat} (precision : f.precision = p + 1)
    (full : 2 ^ p ≤ magnitude) (h : 2 ^ f.excess magnitude ∣ magnitude) :
    ∃ low < 2 ^ p, magnitude / 2 ^ f.excess magnitude = 2 ^ p + low ∧
      magnitude = (2 ^ p + low) * 2 ^ f.excess magnitude := by
  have some : magnitude ≠ 0 := by
    have := Nat.two_pow_pos p
    omega
  have log : p ≤ magnitude.log2 := (Nat.le_log2 some).mpr full
  have places : magnitude.log2 = p + f.excess magnitude := by
    rw [excess, if_neg some, precision]
    omega
  have above := Nat.log2_self_le some
  have below := Nat.lt_log2_self (n := magnitude)
  rw [Nat.pow_succ, places, Nat.pow_add] at below
  rw [places, Nat.pow_add] at above
  obtain ⟨q, hq⟩ := h
  have steps : 0 < 2 ^ f.excess magnitude := Nat.two_pow_pos _
  generalize 2 ^ f.excess magnitude = step at *
  subst hq
  have low : 2 ^ p ≤ q := Nat.le_of_mul_le_mul_left (Nat.mul_comm _ step ▸ above) steps
  have high : q < 2 ^ p * 2 :=
    Nat.lt_of_mul_lt_mul_left (a := step) (by rwa [← Nat.mul_assoc, Nat.mul_comm step (2 ^ p)])
  refine ⟨q - 2 ^ p, by omega, ?_, ?_⟩
  · rw [Nat.mul_div_cancel_left _ steps, Nat.add_sub_cancel' low]
  · rw [Nat.add_sub_cancel' low, Nat.mul_comm]

/-- A magnitude that the format has is read from its fields. -/
theorem unpack_pack (precision : 0 < f.precision) (h : 2 ^ f.excess magnitude ∣ magnitude) :
    f.unpack (f.pack magnitude) = magnitude := by
  obtain ⟨p, hp⟩ : ∃ p, f.precision = p + 1 := ⟨f.precision - 1, by omega⟩
  rw [unpack, pack, hp, Nat.add_sub_cancel]
  by_cases small : magnitude < 2 ^ p
  · rw [excess_eq_zero hp small, Nat.zero_mul, Nat.zero_add, Nat.pow_zero, Nat.div_one, Nat.div_eq_of_lt small,
      if_pos rfl, Nat.mod_eq_of_lt small]
  · obtain ⟨low, rest, quotient, e⟩ := exists_significand hp (Nat.le_of_not_lt small) h
    -- The leading bit of the significand is counted in the exponent field.
    have fields : f.excess magnitude * 2 ^ p + magnitude / 2 ^ f.excess magnitude =
        low + 2 ^ p * (f.excess magnitude + 1) := by
      rw [quotient, Nat.mul_succ, Nat.mul_comm]
      omega
    rw [fields, Nat.add_mul_div_left _ _ (Nat.two_pow_pos p), Nat.div_eq_of_lt rest,
      Nat.add_mul_mod_self_left, Nat.mod_eq_of_lt rest, Nat.zero_add, if_neg (Nat.succ_ne_zero _),
      Nat.add_sub_cancel, ← e]

theorem double_infinity : double.infinity = 2047 * 2 ^ 52 := by decide +kernel

theorem pack_lt_infinity (holds : double.holds magnitude = true) :
    double.pack magnitude < 2047 * 2 ^ 52 := by
  have places : double.excess magnitude ≤ 2045 ∧
      magnitude < 2 ^ (double.excess magnitude + 53) := by
    unfold excess
    split
    · next none =>
      rw [none]
      exact ⟨Nat.zero_le _, Nat.two_pow_pos _⟩
    · next some =>
      have bound : magnitude.log2 < double.bound :=
        (Nat.log2_lt some).mpr (of_decide_eq_true holds)
      have bound : magnitude.log2 < 2098 := bound
      show magnitude.log2 + 1 - 53 ≤ 2045 ∧ magnitude < 2 ^ (magnitude.log2 + 1 - 53 + 53)
      exact ⟨by omega, Nat.lt_of_lt_of_le Nat.lt_log2_self
        (Nat.pow_le_pow_right (by decide) (by omega))⟩
  have quotient : magnitude / 2 ^ double.excess magnitude < 2 ^ 53 :=
    Nat.div_lt_of_lt_mul (by rw [← Nat.pow_add]; exact places.2)
  show double.excess magnitude * 2 ^ 52 + magnitude / 2 ^ double.excess magnitude < _
  omega

end BinaryFormat

namespace Binary

open Float.Model Float.Model.UnpackedFloat

variable {b : BitVec Format.binary64.numBits}

theorem isFinite_of_exponent (h : unpackExponent b ≠ (-1#_)) :
    (UnpackedFloat.unpack .binary64 b).isFinite = true := by
  unfold UnpackedFloat.unpack
  simp only [if_neg h]
  split
  · split
    · rfl
    · rfl
  · rfl

theorem not_le_of_lt {a c : UnpackedFloat} (h : a.lt c = true) : c.le a = false := by
  rw [UnpackedFloat.lt, beq_iff_eq] at h
  rw [UnpackedFloat.le, ← compare_swap, h]
  rfl

/-- Only zeros equal a zero. -/
theorem isFinite_of_beq_zero {a : UnpackedFloat} {s : Sign} (h : a.beq (.zero s) = true) :
    a.isFinite = true := by
  cases a with
  | zero | finite => rfl
  | notANumber => cases h
  | infinity t => cases t <;> cases h

end Binary

namespace Scalar

open Binary BinaryFormat

theorem toBits_ofBits {bits : UInt64} (h : bits.toNat / 2 ^ 52 % 2 ^ 11 ≠ 2047) :
    isFinite (Float.ofBits bits) = true ∧ (Float.ofBits bits).toBits = bits := by
  have finite : (Float.Model.UnpackedFloat.unpack .binary64 bits.toBitVec).isFinite = true := by
    refine isFinite_of_exponent fun ones => h ?_
    have exponent := (toNat_unpack bits.toBitVec).2.1
    rw [ones] at exponent
    exact exponent.symm
  have packed := pack_unpack finite
  constructor
  · show (Float.Model.UnpackedFloat.unpack .binary64 (Float.Model.UnpackedFloat.pack .binary64
      (Float.Model.UnpackedFloat.unpack .binary64 bits.toBitVec))).isFinite = true
    rw [packed]
    exact finite
  · show UInt64.ofBitVec (Float.Model.UnpackedFloat.pack .binary64
      (Float.Model.UnpackedFloat.unpack .binary64 bits.toBitVec)) = bits
    rw [packed]

variable {negative : Bool} {magnitude : Nat}

theorem toBits_toFloat (holds : double.holds magnitude = true) :
    isFinite (BinaryNumber.finite negative magnitude).toFloat = true ∧
      (BinaryNumber.finite negative magnitude).toFloat.toBits.toNat =
        (if negative = true then 2 ^ 63 else 0) + double.pack magnitude := by
  have fields := pack_lt_infinity holds
  rw [BinaryNumber.toFloat, BinaryNumber.pack]
  generalize double.pack magnitude = low at fields
  generalize value : (if negative = true then 2 ^ 63 else 0) + low = bits
  have sign : bits = low ∨ bits = 2 ^ 63 + low := by
    split at value <;> omega
  have toNat : bits.toUInt64.toNat = bits := UInt64.toNat_ofNat_of_lt' (by
    show bits < 2 ^ 64
    omega)
  obtain ⟨finite, same⟩ := toBits_ofBits (by
    rw [toNat]
    omega)
  exact ⟨finite, by rw [same, toNat]⟩

/-- A number of the machine stands for the magnitude that it was made of. -/
theorem ofFloat_toFloat (divides : 2 ^ double.excess magnitude ∣ magnitude)
    (holds : double.holds magnitude = true) :
    BinaryNumber.ofFloat (BinaryNumber.finite negative magnitude).toFloat =
      .finite negative magnitude := by
  have fields := pack_lt_infinity holds
  have back : double.unpack (double.pack magnitude) = magnitude := unpack_pack (by decide) divides
  rw [BinaryNumber.ofFloat, (toBits_toFloat holds).2, BinaryNumber.unpack]
  generalize double.pack magnitude = low at fields back
  have low_lt : low < double.infinity := double_infinity ▸ fields
  cases negative with
  | false =>
    have rest : (0 + low) % 2 ^ 63 = low := by omega
    have plus : ¬2 ^ 63 ≤ 0 + low := by omega
    simp only [if_neg Bool.false_ne_true, rest, if_pos low_lt, back, decide_eq_false plus]
  | true =>
    have rest : (2 ^ 63 + low) % 2 ^ 63 = low := by omega
    simp only [if_pos, rest, if_pos low_lt, back, Nat.le_add_right, decide_true]

/-- What stands for a magnitude is finite. -/
theorem isFinite_of_ofFloat {x : Float} (h : BinaryNumber.ofFloat x = .finite negative magnitude) :
    isFinite x = true := by
  obtain ⟨⟨bits, valid⟩⟩ := x
  have bound : bits.toNat < 2 ^ 64 := bits.toNat_lt
  refine isFinite_of_exponent (b := bits.toBitVec) fun ones => ?_
  have exponent := (toNat_unpack bits.toBitVec).2.1
  rw [ones] at exponent
  have exponent : 2047 = bits.toNat / 2 ^ 52 % 2 ^ 11 := exponent
  have fields : ¬bits.toNat % 2 ^ 63 < double.infinity := by
    rw [double_infinity]
    omega
  have h : BinaryNumber.unpack .double 63 bits.toNat = .finite negative magnitude := h
  rw [BinaryNumber.unpack] at h
  simp only [if_neg fields] at h
  split at h
  · cases h
  · cases h

end Scalar

/-! ### Whole numbers -/

namespace BinaryNumber

variable {f : BinaryFormat}

/-- A whole number that the format has stands for itself. -/
theorem ofDecimal_ofNat {n : Nat} (divides : 2 ^ f.excess (n * 2 ^ f.unit) ∣ n * 2 ^ f.unit)
    (holds : f.holds (n * 2 ^ f.unit) = true) :
    ofDecimal f (.ofNat n) = .finite false (n * 2 ^ f.unit) := by
  by_cases zero : n = 0
  · rw [zero, Nat.zero_mul]
    rfl
  · have scaled : f.ofScaled n 0 = n * 2 ^ f.unit := by
      have self := f.round_self divides Nat.one_pos
      rw [Nat.mul_one] at self
      rw [BinaryFormat.ofScaled, if_neg (by decide), Int.toNat_zero, Nat.pow_zero, Nat.mul_one, self]
    rw [ofDecimal, Decimal.ofNat, if_neg zero]
    simp only
    rw [if_neg (by decide), if_neg (by omega), scaled, ofMagnitude, if_pos holds]

theorem whole?_finite (n : Nat) : (finite false (n * 2 ^ f.unit)).whole? f = some (n : Int) := by
  rw [whole?, if_pos (Nat.mul_mod_left ..)]
  simp only [Nat.mul_div_cancel _ (Nat.two_pow_pos f.unit), if_neg Bool.false_ne_true]

/-- The magnitude of a number that equals a whole one. -/
theorem magnitude_of_whole? {negative : Bool} {magnitude n : Nat}
    (h : (finite negative magnitude).whole? f = some (n : Int)) : magnitude = n * 2 ^ f.unit := by
  rw [whole?] at h
  split at h
  · next whole =>
    have value : magnitude / 2 ^ f.unit = n := by
      have signed := Option.some.inj h
      generalize magnitude / 2 ^ f.unit = k at signed ⊢
      split at signed <;> omega
    rw [← value, Nat.div_mul_cancel (Nat.dvd_of_mod_eq_zero whole)]
  · cases h

end BinaryNumber

namespace Scalar

open BinaryFormat

theorem whole?_ofNat_float {n : Nat}
    (divides : 2 ^ double.excess (n * 2 ^ double.unit) ∣ n * 2 ^ double.unit)
    (holds : double.holds (n * 2 ^ double.unit) = true) :
    whole? (ofNat n : Float) = some (n : Int) := by
  show (BinaryNumber.ofFloat (BinaryNumber.ofDecimal .double (.ofNat n)).toFloat).whole? .double = _
  rw [BinaryNumber.ofDecimal_ofNat divides holds, ofFloat_toFloat divides holds,
    BinaryNumber.whole?_finite]

/-- Whole numbers up to the precision of the format are kept. -/
theorem fits_of_le {n : Nat} (h : n ≤ 2 ^ 53) :
    2 ^ double.excess (n * 2 ^ double.unit) ∣ n * 2 ^ double.unit ∧
      double.holds (n * 2 ^ double.unit) = true := by
  rcases Nat.lt_or_eq_of_le h with below | rfl
  · have magnitude : n * 2 ^ double.unit < 2 ^ (53 + double.unit) := by
      rw [Nat.pow_add]
      exact Nat.mul_lt_mul_of_pos_right below (Nat.two_pow_pos _)
    refine ⟨Nat.dvd_trans (Nat.pow_dvd_pow 2 ?_) (Nat.dvd_mul_left ..), decide_eq_true
      (Nat.lt_trans magnitude (Nat.pow_lt_pow_right (by decide) (by decide)))⟩
    unfold excess
    split
    · exact Nat.zero_le _
    · next some =>
      have log := (Nat.log2_lt some).mpr magnitude
      have log : (n * 2 ^ double.unit).log2 < 53 + double.unit := log
      show _ + 1 - 53 ≤ _
      omega
  · decide +kernel

theorem isNaN_ofDecimal_float (d : Decimal) : isNaN (ofDecimal d : Float) = false := by
  have finite {negative : Bool} {magnitude : Nat} (holds : double.holds magnitude = true) :
      isNaN (BinaryNumber.finite negative magnitude).toFloat = false :=
    OrderedScalar.isNaN_of_isFinite _ (toBits_toFloat holds).1
  have infinite (negative : Bool) : isNaN (BinaryNumber.infinite negative).toFloat = false := by
    cases negative <;> decide +kernel
  show isNaN (BinaryNumber.ofDecimal .double d).toFloat = false
  unfold BinaryNumber.ofDecimal
  split
  · exact finite (by decide +kernel)
  · split
    · exact infinite _
    · split
      · exact finite (by decide +kernel)
      · unfold BinaryNumber.ofMagnitude
        split
        · next holds => exact finite holds
        · exact infinite _

end Scalar

open Scalar BinaryFormat in
instance instPlainScalarFloat : PlainScalar Float where
  ofPlain?_text x h := by
    obtain ⟨negative, magnitude, e, divides, holds, back⟩ := ofFloat_eq h
    refine ⟨Decimal.positional ⟨negative, (double.shortest magnitude).1,
      (double.shortest magnitude).2⟩, ?_, ?_⟩
    · show Decimal.ofPlain? ((BinaryNumber.ofFloat x).text .double).toList = some _
      rw [e, BinaryNumber.toList_text, Decimal.ofPlain?_chars]
    · show (BinaryNumber.ofDecimal .double _).toFloat = x
      rw [BinaryNumber.ofDecimal_shortest (by decide) negative divides holds, back]
  text_of_not_finite x h := by
    show (∀ c ∈ ((BinaryNumber.ofFloat x).text .double).toList, _) ∧
      Decimal.ofPlain? (((BinaryNumber.ofFloat x).text .double).toList.takeWhile _) = none
    rcases e : BinaryNumber.ofFloat x with ⟨negative, magnitude⟩ | negative | _
    · rw [isFinite_of_ofFloat e] at h
      cases h
    · cases negative <;> exact ⟨forall_dark (by decide), by decide⟩
    · exact ⟨forall_dark (by decide), by decide⟩
  not_le_of_lt x y h := by
    rw [lt_float] at h
    rw [le_float]
    exact Binary.not_le_of_lt h
  isNaN_ofDecimal := isNaN_ofDecimal_float
  isFinite_of_beq_zero x h := by
    rw [isFinite_float]
    refine Binary.isFinite_of_beq_zero (s := .positive) ?_
    exact h
  whole?_ofNat n h := whole?_ofNat_float (fits_of_le h).1 (fits_of_le h).2
  whole?_ofNat_of_whole? x n h := by
    have h : (BinaryNumber.ofFloat x).whole? .double = some (n : Int) := h
    rcases e : BinaryNumber.ofFloat x with ⟨negative, magnitude⟩ | negative | _
    · obtain ⟨_, _, e', divides, holds, -⟩ := ofFloat_eq (isFinite_of_ofFloat e)
      obtain ⟨rfl, rfl⟩ := BinaryNumber.finite.inj (e.symm.trans e')
      rw [e] at h
      have whole := BinaryNumber.magnitude_of_whole? h
      exact whole?_ofNat_float (whole ▸ divides) (whole ▸ holds)
    · rw [e] at h
      cases h
    · rw [e] at h
      cases h
  whole?_ofNat_greatest := ⟨2 ^ 63, by decide +kernel, by decide, by decide⟩

end Winding

import Winding.Number.Scalar
import Winding.Proofs.Basic

/-!
# Numbers are read back from their texts

Digits write a number that is read back (`natBelow?_toString`), a decimal is read back from its
positional text (`Numeral.ofText?_chars`), and a binary number from the shortest decimal that rounds
to it (`BinaryNumber.ofText?_text`).
-/

namespace Winding

/-! ## Digits -/

theorem natOfDigits_eq (cs : List Char) : natOfDigits cs = Nat.ofDigitChars 10 cs 0 := by
  unfold natOfDigits Nat.ofDigitChars
  congr 1
  funext n c
  rw [digitValue, Nat.mul_comm]

@[simp]
theorem natOfDigits_digitsOf (n : Nat) : natOfDigits (digitsOf n) = n := by
  rw [natOfDigits_eq]
  exact Nat.ofDigitChars_toDigits (by decide) (by decide)

theorem natOfDigits_zeros_append (k : Nat) (cs : List Char) :
    natOfDigits (List.replicate k '0' ++ cs) = natOfDigits cs := by
  rw [natOfDigits_eq, natOfDigits_eq, Nat.ofDigitChars_append, Nat.ofDigitChars_replicate_zero,
    Nat.mul_zero]

theorem natOfDigits_append_zeros (cs : List Char) (k : Nat) :
    natOfDigits (cs ++ List.replicate k '0') = natOfDigits cs * 10 ^ k := by
  rw [natOfDigits_eq, natOfDigits_eq, Nat.ofDigitChars_append, Nat.ofDigitChars_replicate_zero,
    Nat.mul_comm]

/-- A run of digits that is not empty. -/
structure AreDigits (cs : List Char) : Prop where
  ne_nil : cs ≠ []
  digits : ∀ c ∈ cs, c.isDigit = true

namespace AreDigits

variable {cs : List Char}

theorem digitsOf (n : Nat) : AreDigits (digitsOf n) :=
  ⟨Nat.toDigits_ne_nil, fun _ => Nat.isDigit_of_mem_toDigits (by decide) (by decide)⟩

theorem zeros_append (h : AreDigits cs) (k : Nat) : AreDigits (List.replicate k '0' ++ cs) := by
  refine ⟨List.append_ne_nil_of_right_ne_nil _ h.ne_nil, fun c hc => ?_⟩
  rcases List.mem_append.mp hc with zero | digit
  · rw [List.eq_of_mem_replicate zero]
    rfl
  · exact h.digits c digit

theorem append_zeros (h : AreDigits cs) (k : Nat) : AreDigits (cs ++ List.replicate k '0') := by
  refine ⟨List.append_ne_nil_of_left_ne_nil h.ne_nil _, fun c hc => ?_⟩
  rcases List.mem_append.mp hc with digit | zero
  · exact h.digits c digit
  · rw [List.eq_of_mem_replicate zero]
    rfl

theorem head (h : AreDigits cs) : ∃ c rest, cs = c :: rest ∧ c.isDigit = true := by
  obtain ⟨c, rest, rfl⟩ := List.exists_cons_of_ne_nil h.ne_nil
  exact ⟨c, rest, rfl, h.digits c List.mem_cons_self⟩

/-- What begins with a digit begins with no other character. -/
theorem ne_cons (h : AreDigits cs) {c : Char} (other : c.isDigit = false) (rest : List Char) :
    cs ≠ c :: rest := by
  rintro rfl
  rw [h.digits c List.mem_cons_self] at other
  cases other

theorem natOfDigits? (h : AreDigits cs) : natOfDigits? cs = some (natOfDigits cs) := by
  have all : cs.all Char.isDigit = true := List.all_eq_true.mpr h.digits
  have some : cs.isEmpty = false := List.isEmpty_eq_false_iff.mpr h.ne_nil
  rw [Winding.natOfDigits?, all, some]
  rfl

theorem natOfText? (h : AreDigits cs) : natOfText? cs = some (natOfDigits cs) := by
  unfold Winding.natOfText?
  split
  · next rest => exact absurd rfl (h.ne_cons (by decide) rest)
  · exact h.natOfDigits?

end AreDigits

/-- A natural number below a limit is read back from its text. -/
theorem natBelow?_toString {limit n : Nat} (h : n < limit) :
    natBelow? limit (toString n).toList = some n := by
  have digits : (toString n).toList = digitsOf n := Nat.toList_repr
  rw [natBelow?, digits, (AreDigits.digitsOf n).natOfText?, natOfDigits_digitsOf]
  exact if_pos (decide_eq_true h)

/-! ## Decimals -/

namespace Decimal

/-- The decimal that a positional text says: its exponent is not above zero. -/
def positional (d : Decimal) : Decimal :=
  if d.exponent < 0 then d else ⟨d.negative, d.coefficient * 10 ^ d.exponent.toNat, 0⟩

theorem scan?_digits {cs : List Char} (h : AreDigits cs) : scan? cs = some (cs, [], []) := by
  obtain ⟨take, drop⟩ := takeWhile_append_stop (r := []) h.digits nofun
  rw [List.append_nil] at take drop
  rw [scan?, take, drop]
  exact if_neg (by rw [List.isEmpty_iff]; exact h.ne_nil)

theorem scan?_point {whole fraction : List Char} (h : AreDigits whole)
    (digits : ∀ c ∈ fraction, c.isDigit = true) :
    scan? (whole ++ '.' :: fraction) = some (whole, fraction, []) := by
  obtain ⟨take, drop⟩ := takeWhile_append_stop (r := '.' :: fraction) h.digits
    (by rintro c ⟨⟩; rfl)
  obtain ⟨take', drop'⟩ := takeWhile_append_stop (r := []) digits nofun
  rw [List.append_nil] at take' drop'
  rw [scan?, take, drop]
  simp only [take', drop']
  have some : whole.isEmpty = false := List.isEmpty_eq_false_iff.mpr h.ne_nil
  rw [some]
  rfl

/-- The digits in front of the point and behind it. -/
theorem digitsText_eq (d : Decimal) :
    (∃ cs, AreDigits cs ∧ d.digitsText = cs ∧
      d.positional = ⟨d.negative, natOfDigits cs, 0⟩) ∨
    ∃ whole fraction, AreDigits whole ∧ (∀ c ∈ fraction, c.isDigit = true) ∧
      d.digitsText = whole ++ '.' :: fraction ∧
      d.positional = ⟨d.negative, natOfDigits (whole ++ fraction), -fraction.length⟩ := by
  unfold digitsText positional
  by_cases below : d.exponent < 0
  · right
    rw [if_pos below, if_pos below]
    -- Zeros fill the digits up until at least one stands in front of the point.
    have digits := (AreDigits.digitsOf d.coefficient).zeros_append
      (d.exponent.natAbs + 1 - (digitsOf d.coefficient).length)
    have places : d.exponent.natAbs ≠ 0 := by omega
    simp only [pointed, if_neg places]
    generalize padding : d.exponent.natAbs + 1 - (digitsOf d.coefficient).length = k at digits ⊢
    have long : d.exponent.natAbs < (List.replicate k '0' ++ digitsOf d.coefficient).length := by
      rw [List.length_append, List.length_replicate]
      omega
    have value := natOfDigits_zeros_append k (digitsOf d.coefficient)
    rw [natOfDigits_digitsOf] at value
    generalize List.replicate k '0' ++ digitsOf d.coefficient = padded at digits long value ⊢
    refine ⟨padded.take (padded.length - d.exponent.natAbs),
      padded.drop (padded.length - d.exponent.natAbs), ⟨?_, fun c hc => ?_⟩, fun c hc => ?_, rfl,
      ?_⟩
    · rw [← List.length_pos_iff, List.length_take]
      omega
    · exact digits.digits c (List.mem_of_mem_take hc)
    · exact digits.digits c (List.mem_of_mem_drop hc)
    · rw [List.take_append_drop, value, List.length_drop]
      have exponent :
          d.exponent = -((padded.length - (padded.length - d.exponent.natAbs) : Nat)) := by
        omega
      rw [← exponent]
  · left
    rw [if_neg below, if_neg below]
    by_cases zero : d.coefficient = 0
    · rw [if_pos zero, zero]
      exact ⟨_, .digitsOf 0, rfl, by rw [natOfDigits_digitsOf, Nat.zero_mul]⟩
    · rw [if_neg zero]
      refine ⟨_, (AreDigits.digitsOf d.coefficient).append_zeros d.exponent.toNat, rfl, ?_⟩
      rw [natOfDigits_append_zeros, natOfDigits_digitsOf]

/-- A text begins with a digit, or with a minus and a digit. -/
theorem chars_eq (d : Decimal) : ∃ c cs, c.isDigit = true ∧
    d.digitsText = c :: cs ∧ splitSign d.chars = (d.negative, d.digitsText) := by
  obtain ⟨c, cs, digit, text⟩ : ∃ c cs, c.isDigit = true ∧ d.digitsText = c :: cs := by
    rcases d.digitsText_eq with ⟨cs, digits, text, -⟩ | ⟨whole, fraction, digits, -, text, -⟩
    · obtain ⟨c, rest, rfl, digit⟩ := digits.head
      exact ⟨c, rest, digit, text⟩
    · obtain ⟨c, rest, rfl, digit⟩ := digits.head
      exact ⟨c, _, digit, text⟩
  refine ⟨c, cs, digit, text, ?_⟩
  unfold chars
  rcases d.negative with _ | _
  · rw [if_neg Bool.false_ne_true, text]
    unfold splitSign
    split
    · next e =>
      cases e
      cases digit
    · next e =>
      cases e
      cases digit
    · rfl
  · rfl

theorem ofScientific?_chars (d : Decimal) : ofScientific? d.chars = some d.positional := by
  obtain ⟨-, -, -, -, sign⟩ := d.chars_eq
  rw [ofScientific?, sign]
  rcases d.digitsText_eq with
    ⟨cs, digits, text, value⟩ | ⟨whole, fraction, digits, more, text, value⟩
  · rw [text, value]
    simp only [scan?_digits digits, bind, Option.bind, exponent?, pure, ofParts, List.append_nil]
    rfl
  · rw [text, value]
    simp only [scan?_point digits more, bind, Option.bind, exponent?, pure, ofParts]
    rw [Int.zero_sub]

end Decimal

namespace Numeral

theorem toLower_digit {c : Char} (h : c.isDigit = true) : c.toLower = c := by
  unfold Char.isDigit at h
  simp only [Bool.and_eq_true, decide_eq_true_eq, ge_iff_le, UInt32.le_iff_toNat_le] at h
  unfold Char.toLower
  split
  · next upper =>
    have low : 'A'.val.toNat ≤ c.val.toNat := UInt32.le_iff_toNat_le.mp upper.1
    exact absurd (Nat.le_trans low h.2) (by decide)
  · rfl

/-- No word begins with a digit. -/
theorem isWord_eq_false {word : String} {l : Char} {ls cs : List Char} {c : Char}
    (letters : word.toList = l :: ls) (letter : l.isDigit = false) (digit : c.isDigit = true) :
    isWord word (c :: cs) = false := by
  rw [isWord, List.map_cons, toLower_digit digit, letters, beq_eq_false_iff_ne]
  intro same
  rw [(List.cons.inj same).1, letter] at digit
  cases digit

/-- A decimal is read back from its text. -/
theorem ofText?_chars (d : Decimal) : ofText? d.chars = some (.decimal d.positional) := by
  obtain ⟨c, cs, digit, text, sign⟩ := d.chars_eq
  have inf : isWord "inf" d.digitsText = false :=
    text ▸ isWord_eq_false (l := 'i') rfl rfl digit
  have infinity : isWord "infinity" d.digitsText = false :=
    text ▸ isWord_eq_false (l := 'i') rfl rfl digit
  have nan : isWord "nan" d.digitsText = false :=
    text ▸ isWord_eq_false (l := 'n') rfl rfl digit
  rw [ofText?, sign]
  simp only [inf, infinity, nan, Decimal.ofScientific?_chars]
  rfl

end Numeral

/-! ## Binary numbers -/

namespace BinaryFormat

variable (f : BinaryFormat)

theorem excess_zero : f.excess 0 = 0 := rfl

/-- A magnitude that the format has is its own rounding. -/
theorem round_self {magnitude : Nat} (h : 2 ^ f.excess magnitude ∣ magnitude) {den : Nat}
    (pos : 0 < den) : f.round (magnitude * den) den = magnitude := by
  obtain ⟨q, hq⟩ := h
  have steps : 0 < 2 ^ f.excess magnitude := Nat.two_pow_pos _
  rw [round, Nat.mul_div_cancel _ pos]
  generalize 2 ^ f.excess magnitude = step at hq steps
  rw [hq, Nat.mul_comm step q, Nat.mul_assoc, Nat.mul_comm step den,
    roundDiv_mul_self q (Nat.mul_pos pos steps)]

/-- What is less than half of the smallest unit is rounded to nothing. -/
theorem round_eq_zero {num den : Nat} (h : 2 * num < den) : f.round num den = 0 := by
  have none : num / den = 0 := Nat.div_eq_of_lt (by omega)
  have rest : num % (den * 2 ^ f.excess 0) = num := by
    rw [f.excess_zero, Nat.pow_zero, Nat.mul_one]
    exact Nat.mod_eq_of_lt (by omega)
  rw [round, none, roundDiv, rest, f.excess_zero, Nat.pow_zero, Nat.mul_one, Nat.mul_one, none]
  simp only [if_pos h]

/-! ### The shortest decimal -/

theorem onGrid?_eq_some {magnitude coefficient : Nat} {exponent : Int}
    (h : f.onGrid? magnitude exponent = some coefficient) :
    f.ofScaled coefficient exponent = magnitude := by
  unfold onGrid? at h
  simp only at h
  split at h
  · next low =>
    cases h
    exact low.1
  · split at h
    · next high =>
      cases h
      exact high
    · cases h

theorem ofScaled_units {magnitude : Nat} (h : 2 ^ f.excess magnitude ∣ magnitude)
    (unit : 0 < f.unit) : f.ofScaled (magnitude * 5 ^ f.unit) (-f.unit) = magnitude := by
  have below : -(f.unit : Int) < 0 := by omega
  rw [ofScaled, if_pos below, Int.natAbs_neg, Int.natAbs_natCast, Nat.mul_assoc, ← Nat.mul_pow]
  exact f.round_self h (Nat.pow_pos (by decide))

theorem searchGrids_spec {magnitude : Nat} (h : 2 ^ f.excess magnitude ∣ magnitude)
    (unit : 0 < f.unit) (exponent : Int) (fuel : Nat) :
    f.ofScaled (f.searchGrids magnitude exponent fuel).1 (f.searchGrids magnitude exponent fuel).2 =
      magnitude := by
  induction fuel generalizing exponent with
  | zero => exact f.ofScaled_units h unit
  | succ fuel ih =>
    unfold searchGrids
    split
    · next found => exact f.onGrid?_eq_some found
    · exact ih _

/-- The shortest decimal rounds back. -/
theorem shortest_spec {magnitude : Nat} (h : 2 ^ f.excess magnitude ∣ magnitude)
    (unit : 0 < f.unit) (some : magnitude ≠ 0) :
    f.ofScaled (f.shortest magnitude).1 (f.shortest magnitude).2 = magnitude := by
  rw [shortest, if_neg some]
  exact f.searchGrids_spec h unit _ _

/-- A decimal so small that its powers are not computed is rounded to nothing. -/
theorem ofScaled_eq_zero {coefficient : Nat} {exponent : Int} (below : exponent < 0)
    (small : (coefficient.log2 : Int) + f.unit + 2 ≤ -3 * exponent) :
    f.ofScaled coefficient exponent = 0 := by
  rw [ofScaled, if_pos below]
  refine f.round_eq_zero ?_
  have places : coefficient.log2 + f.unit + 2 ≤ 3 * exponent.natAbs := by omega
  calc 2 * (coefficient * 2 ^ f.unit)
      < 2 * (2 ^ (coefficient.log2 + 1) * 2 ^ f.unit) :=
        Nat.mul_lt_mul_of_pos_left
          (Nat.mul_lt_mul_of_pos_right Nat.lt_log2_self (Nat.two_pow_pos _)) (by decide)
    _ = 2 ^ (coefficient.log2 + f.unit + 2) := by
        rw [← Nat.pow_add, ← Nat.pow_succ', Nat.add_right_comm _ 1, Nat.add_assoc _ 1 1]
    _ ≤ 2 ^ (3 * exponent.natAbs) := Nat.pow_le_pow_right (by decide) places
    _ = 8 ^ exponent.natAbs := Nat.pow_mul ..
    _ ≤ 10 ^ exponent.natAbs := Nat.pow_le_pow_left (by decide) _

theorem ofScaled_zero (exponent : Int) : f.ofScaled 0 exponent = 0 := by
  have none (den : Nat) (pos : 0 < den) : f.round 0 den = 0 := by
    have := f.round_self (Nat.dvd_zero (2 ^ f.excess 0)) pos
    rwa [Nat.zero_mul] at this
  unfold ofScaled
  split
  · rw [Nat.zero_mul]
    exact none _ (Nat.pow_pos (by decide))
  · rw [Nat.zero_mul, Nat.zero_mul]
    exact none _ Nat.one_pos

end BinaryFormat

namespace BinaryNumber

variable {f : BinaryFormat}

/-- A decimal stands for the magnitude to which it rounds, also in its positional form. -/
theorem ofDecimal_positional {d : Decimal} {magnitude : Nat} (some : magnitude ≠ 0)
    (holds : f.holds magnitude = true)
    (rounds : f.ofScaled d.coefficient d.exponent = magnitude) :
    ofDecimal f d.positional = .finite d.negative magnitude := by
  have coefficient : d.coefficient ≠ 0 := by
    intro zero
    rw [zero, f.ofScaled_zero] at rounds
    exact some rounds.symm
  unfold Decimal.positional
  by_cases below : d.exponent < 0
  · rw [if_pos below, ofDecimal, if_neg coefficient, if_neg (by omega), if_neg, rounds, ofMagnitude,
      if_pos holds]
    intro small
    exact some (rounds.symm.trans (f.ofScaled_eq_zero below small))
  · have rounds' : f.ofScaled (d.coefficient * 10 ^ d.exponent.toNat) 0 = magnitude := by
      rw [← rounds, BinaryFormat.ofScaled, BinaryFormat.ofScaled, if_neg below, if_neg (by decide),
        Int.toNat_zero, Nat.pow_zero, Nat.mul_one]
    have power : d.coefficient * 10 ^ d.exponent.toNat ≠ 0 :=
      Nat.mul_ne_zero coefficient (Nat.ne_of_gt (Nat.pow_pos (by decide)))
    have near : ¬((400 : Int) < 0) := by decide
    rw [if_neg below, ofDecimal, if_neg power]
    simp only
    rw [if_neg near, if_neg (by omega), rounds', ofMagnitude, if_pos holds]

/-- The text of a finite number is that of the shortest decimal. -/
theorem toList_text (negative : Bool) (magnitude : Nat) :
    ((finite negative magnitude).text f).toList =
      Decimal.chars ⟨negative, (f.shortest magnitude).1, (f.shortest magnitude).2⟩ := by
  rw [text, textWith]
  cases negative with
  | false => exact String.toList_ofList
  | true =>
    rw [if_pos rfl, String.toList_append]
    exact congrArg ('-' :: ·) String.toList_ofList

/-- The shortest decimal of a finite number stands for it. -/
theorem ofDecimal_shortest (unit : 0 < f.unit) (negative : Bool) {magnitude : Nat}
    (divides : 2 ^ f.excess magnitude ∣ magnitude) (holds : f.holds magnitude = true) :
    ofDecimal f (Decimal.positional
      ⟨negative, (f.shortest magnitude).1, (f.shortest magnitude).2⟩) =
        .finite negative magnitude := by
  by_cases zero : magnitude = 0
  · subst zero
    rfl
  · rw [ofDecimal_positional zero holds (f.shortest_spec divides unit zero)]

/-- A finite number is read back from its text. -/
theorem ofText?_text (unit : 0 < f.unit) (negative : Bool) {magnitude : Nat}
    (divides : 2 ^ f.excess magnitude ∣ magnitude) (holds : f.holds magnitude = true) :
    (Numeral.ofText? ((finite negative magnitude).text f).toList).map (ofNumeral f) =
      some (.finite negative magnitude) := by
  rw [toList_text, Numeral.ofText?_chars, Option.map_some, ofNumeral,
    ofDecimal_shortest unit negative divides holds]

end BinaryNumber

end Winding

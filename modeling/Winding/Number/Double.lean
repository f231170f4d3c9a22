import Winding.Number.Shortest

/-!
# Numbers of 64 and 32 bits

`BinaryNumber` is what the bits of a number mean: a signed magnitude in the smallest units of the
format, an infinity or not a number. Decimal numerals round into it, and it is written back as the
shortest decimal that reads as the same number, with fixed places, or with a count of digits.
-/

namespace Winding

/-- The meaning of a binary number's bits. -/
inductive BinaryNumber where
  | finite (negative : Bool) (magnitude : Nat)
  | infinite (negative : Bool)
  | notANumber
deriving DecidableEq, Repr, Inhabited

namespace BinaryNumber

/-- A rounded magnitude as a number: an infinity past the format's bound. -/
def ofMagnitude (f : BinaryFormat) (negative : Bool) (magnitude : Nat) : BinaryNumber :=
  if f.holds magnitude then .finite negative magnitude else .infinite negative

/-- The number nearest to a decimal. Exponents far outside the format are decided without
computing their powers of ten. -/
def ofDecimal (f : BinaryFormat) (d : Decimal) : BinaryNumber :=
  if d.coefficient = 0 then .finite d.negative 0
  else if 400 < d.exponent then .infinite d.negative
  else if (d.coefficient.log2 : Int) + f.unit + 2 ≤ -3 * d.exponent then .finite d.negative 0
  else ofMagnitude f d.negative (f.ofScaled d.coefficient d.exponent)

/-- The number that a numeral stands for. -/
def ofNumeral (f : BinaryFormat) : Numeral → BinaryNumber
  | .decimal d => ofDecimal f d
  | .infinite negative => .infinite negative
  | .notANumber => .notANumber

/-- The number of another format nearest to this one. -/
def convert (source target : BinaryFormat) : BinaryNumber → BinaryNumber
  | .finite negative magnitude =>
    ofMagnitude target negative (target.round (magnitude * 2 ^ target.unit) (2 ^ source.unit))
  | x => x

/-- The sign, exponent and significand fields of a number. -/
def pack (f : BinaryFormat) (signPlace : Nat) : BinaryNumber → Nat
  | .finite negative magnitude => (if negative then 2 ^ signPlace else 0) + f.pack magnitude
  | .infinite negative => (if negative then 2 ^ signPlace else 0) + f.infinity
  | .notANumber => f.infinity + 2 ^ (f.precision - 2)

/-- The number with these sign, exponent and significand fields. -/
def unpack (f : BinaryFormat) (signPlace : Nat) (bits : Nat) : BinaryNumber :=
  let negative := decide (2 ^ signPlace ≤ bits)
  let fields := bits % 2 ^ signPlace
  if fields < f.infinity then .finite negative (f.unpack fields)
  else if fields = f.infinity then .infinite negative
  else .notANumber

/-- The whole number that a number equals, if it does. -/
def whole? (f : BinaryFormat) : BinaryNumber → Option Int
  | .finite negative magnitude =>
    if magnitude % 2 ^ f.unit = 0 then
      let n : Int := (magnitude / 2 ^ f.unit : Nat)
      some (if negative then -n else n)
    else none
  | _ => none

/-! ## Texts -/

/-- A sign in front of the text of a magnitude, or the word for what is not finite. -/
def textWith (magnitudeText : Nat → String) : BinaryNumber → String
  | .finite negative magnitude =>
    if negative then "-" ++ magnitudeText magnitude else magnitudeText magnitude
  | .infinite negative => if negative then "-inf" else "inf"
  | .notANumber => "NaN"

/-- The shortest positional text that reads back as the number. -/
def text (f : BinaryFormat) : BinaryNumber → String :=
  textWith fun magnitude =>
    let (coefficient, exponent) := f.shortest magnitude
    Decimal.text ⟨false, coefficient, exponent⟩

/-- The text with a fixed count of places. -/
def fixedText (f : BinaryFormat) (places : Nat) : BinaryNumber → String :=
  textWith fun magnitude => (f.fixed places magnitude).text

/-- The text with `places + 1` significant digits, a point after the first, and an exponent. -/
def scientificText (f : BinaryFormat) (places : Nat) : BinaryNumber → String :=
  textWith fun magnitude =>
    let (digits, exponent) := f.significant (places + 1) magnitude
    Decimal.text ⟨false, digits, -places⟩ ++ "e" ++
      (Decimal.text ⟨decide (exponent < 0), exponent.natAbs, 0⟩)

/-! ## 64 bits -/

/-- The meaning of a 64-bit number's bits. -/
def ofFloat (x : Float) : BinaryNumber := .unpack .double 63 x.toBits.toNat

/-- The 64-bit number with this meaning. -/
def toFloat (x : BinaryNumber) : Float := Float.ofBits (x.pack .double 63).toUInt64

/-- The square root of the sum of two squares, rounded once. -/
def hypotenuse : BinaryNumber → BinaryNumber → BinaryNumber
  | .infinite _, _ => .infinite false
  | _, .infinite _ => .infinite false
  | .finite _ a, .finite _ b =>
    ofMagnitude .double false (BinaryFormat.double.roundSqrt (a * a + b * b))
  | _, _ => .notANumber

/-! ## 32 bits -/

/-- The meaning of a 32-bit number's bits. -/
def ofFloat32 (x : Float32) : BinaryNumber := .unpack .single 31 x.toBits.toNat

/-- The 32-bit number with this meaning. -/
def toFloat32 (x : BinaryNumber) : Float32 := Float32.ofBits (x.pack .single 31).toUInt32

end BinaryNumber

end Winding

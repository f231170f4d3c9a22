import Winding.Number.Double

/-!
# The numbers a winder computes with

Coordinates, lengths, speeds and times are kept over any number system with the operations of
`Scalar`. The machine runs on 64-bit numbers (`instScalarFloat`); statements about exact lengths
take a system whose arithmetic is exact. Comparisons are Boolean, so that a system may have values
that compare with nothing, and `x == x` fails exactly for those.
-/

namespace Winding

/-- A number system for coordinates, lengths and speeds. -/
class Scalar (R : Type) extends Add R, Sub R, Mul R, Div R, BEq R where
  /-- The number nearest to a decimal. -/
  ofDecimal : Decimal → R
  /-- The number that a numeral stands for, if the system has one. -/
  ofNumeral? : Numeral → Option R
  lt : R → R → Bool
  le : R → R → Bool
  isFinite : R → Bool
  abs : R → R
  sqrt : R → R
  atan : R → R
  /-- The square root of the sum of two squares. -/
  hypot : R → R → R
  /-- The whole number that a number equals, if it does. -/
  whole? : R → Option Int
  /-- A text that reads back as the number. -/
  text : R → String
  /-- The text with a fixed count of decimal places. -/
  fixed : Nat → R → String
  /-- The nearest 32-bit number, as the controller holds it. -/
  toSingle : R → Float32
  /-- The value of a 32-bit number. -/
  ofSingle : Float32 → R

namespace Scalar

variable {R : Type} [Scalar R]

/-- A whole number. -/
def ofNat (n : Nat) : R := ofDecimal (.ofNat n)

/-- Zero. -/
def zero : R := ofNat 0

/-- `coefficient * 10 ^ (-places)`. -/
def ofPlaces (coefficient places : Nat) : R := ofDecimal ⟨false, coefficient, -places⟩

/-- Whether a number compares with nothing, itself included. -/
def isNaN (x : R) : Bool := !(x == x)

/-- Whether a number is above zero. -/
def positive (x : R) : Bool := lt zero x

/-- The smaller of two numbers; one that compares with nothing gives way to the other. -/
def min (x y : R) : R :=
  if isNaN x then y else if isNaN y then x else if lt y x then y else x

/-- `x` moved into `low .. high`. -/
def clamp (x low high : R) : R :=
  if lt x low then low else if lt high x then high else x

/-- Whether `low ≤ x ≤ high`. -/
def between (low high x : R) : Bool := le low x && le x high

/-- The sum of a list, from left to right. -/
def sum (xs : List R) : R := xs.foldl (· + ·) zero

/-- The gap between one and the next 64-bit number, `2 ^ (-52)`. -/
def epsilon : R := ofDecimal ⟨false, 5 ^ (52 : Nat), -52⟩

/-- A count of milliseconds in seconds. -/
def ofMillis (ms : Nat) : R := ofNat (ms / 1000) + ofNat (ms % 1000 * 1000000) / ofNat 1000000000

/-- A number of a command or a document. -/
def ofText? (s : String) : Option R := (Numeral.ofText? s.toList).bind ofNumeral?

end Scalar

instance instScalarFloat : Scalar Float where
  ofDecimal d := (BinaryNumber.ofDecimal .double d).toFloat
  ofNumeral? n := some (BinaryNumber.ofNumeral .double n).toFloat
  lt x y := decide (x < y)
  le x y := decide (x ≤ y)
  isFinite := Float.isFinite
  abs := Float.abs
  sqrt := Float.sqrt
  atan := Float.atan
  hypot x y := (BinaryNumber.hypotenuse (.ofFloat x) (.ofFloat y)).toFloat
  whole? x := (BinaryNumber.ofFloat x).whole? .double
  text x := (BinaryNumber.ofFloat x).text .double
  fixed places x := (BinaryNumber.ofFloat x).fixedText .double places
  toSingle x := ((BinaryNumber.ofFloat x).convert .double .single).toFloat32
  ofSingle x := ((BinaryNumber.ofFloat32 x).convert .single .double).toFloat

end Winding

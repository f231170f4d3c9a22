/-!
# Decimal numerals

A `Decimal` is a signed whole coefficient times a power of ten. Texts are read in two grammars: the
plain one of recipe words (`Decimal.ofPlain?`: a sign, digits, a point) and the general one of
command words and documents (`Numeral.ofText?`: also exponents, infinities and not-a-number).
`Decimal.text` writes a decimal positionally, never with an exponent.
-/

namespace Winding

/-- `± coefficient * 10 ^ exponent`. -/
structure Decimal where
  negative : Bool
  coefficient : Nat
  exponent : Int
deriving DecidableEq, Repr, Inhabited

/-- A number as it is written: a decimal, an infinity or not a number. -/
inductive Numeral where
  | decimal (value : Decimal)
  | infinite (negative : Bool)
  | notANumber
deriving DecidableEq, Repr, Inhabited

/-! ## Digits -/

/-- The value of an ASCII digit. -/
def digitValue (c : Char) : Nat := c.toNat - '0'.toNat

/-- The number that a run of decimal digits writes. -/
def natOfDigits (cs : List Char) : Nat :=
  cs.foldl (fun n c => n * 10 + digitValue c) 0

/-- The number that a non-empty run of digits writes. -/
def natOfDigits? (cs : List Char) : Option Nat :=
  if cs.isEmpty || !cs.all Char.isDigit then none else some (natOfDigits cs)

/-- A natural number with an optional plus sign, as commands and documents write it. -/
def natOfText? : List Char → Option Nat
  | '+' :: cs => natOfDigits? cs
  | cs => natOfDigits? cs

/-- A natural number below `limit` with an optional plus sign. -/
def natBelow? (limit : Nat) (cs : List Char) : Option Nat :=
  (natOfText? cs).filter (· < limit)

/-- The decimal digits of a number. -/
def digitsOf (n : Nat) : List Char := Nat.toDigits 10 n

/-- Splits a leading sign off: whether it is a minus, and the rest. -/
def splitSign : List Char → Bool × List Char
  | '-' :: cs => (true, cs)
  | '+' :: cs => (false, cs)
  | cs => (false, cs)

namespace Decimal

/-- A whole number. -/
def ofNat (n : Nat) : Decimal := ⟨false, n, 0⟩

/-- The decimal with these digits before and after the point, times `10 ^ exponent`. -/
def ofParts (negative : Bool) (whole fraction : List Char) (exponent : Int) : Decimal :=
  ⟨negative, natOfDigits (whole ++ fraction), exponent - fraction.length⟩

/-- Splits `digits`, `digits.`, `.digits` or `digits.digits` at the point and returns what
follows; `none` without a digit. -/
def scan? (cs : List Char) : Option (List Char × List Char × List Char) :=
  let whole := cs.takeWhile Char.isDigit
  match cs.dropWhile Char.isDigit with
  | '.' :: rest =>
    let fraction := rest.takeWhile Char.isDigit
    if whole.isEmpty && fraction.isEmpty then none
    else some (whole, fraction, rest.dropWhile Char.isDigit)
  | rest => if whole.isEmpty then none else some (whole, [], rest)

/-- A signed decimal without exponent, the numbers of recipe words. -/
def ofPlain? (cs : List Char) : Option Decimal :=
  let (negative, body) := splitSign cs
  match scan? body with
  | some (whole, fraction, []) => some (ofParts negative whole fraction 0)
  | _ => none

/-- The exponent part of a numeral: nothing, or `e` and a signed whole number. -/
def exponent? : List Char → Option Int
  | [] => some 0
  | c :: cs =>
    if c = 'e' || c = 'E' then
      let (negative, body) := splitSign cs
      (natOfDigits? body).map fun n => if negative then -(n : Int) else n
    else none

/-- A signed decimal with an optional exponent. -/
def ofScientific? (cs : List Char) : Option Decimal := do
  let (negative, body) := splitSign cs
  let (whole, fraction, rest) ← scan? body
  let exponent ← exponent? rest
  return ofParts negative whole fraction exponent

/-- Digits with a point `places` before their end, padded with zeros on the left. -/
def pointed (digits : List Char) (places : Nat) : List Char :=
  let padded := List.replicate (places + 1 - digits.length) '0' ++ digits
  let whole := padded.take (padded.length - places)
  if places = 0 then whole else whole ++ '.' :: padded.drop (padded.length - places)

/-- The positional text: every digit of the coefficient, and zeros up to the point. -/
def digitsText (d : Decimal) : List Char :=
  if d.exponent < 0 then pointed (digitsOf d.coefficient) d.exponent.natAbs
  else if d.coefficient = 0 then ['0']
  else digitsOf d.coefficient ++ List.replicate d.exponent.toNat '0'

/-- The positional text with its sign. -/
def chars (d : Decimal) : List Char :=
  if d.negative then '-' :: d.digitsText else d.digitsText

/-- The positional text with its sign. -/
def text (d : Decimal) : String := String.ofList d.chars

end Decimal

namespace Numeral

/-- Whether a text is this lower-case word in any mixture of cases. -/
def isWord (word : String) (cs : List Char) : Bool :=
  cs.map Char.toLower == word.toList

/-- A number of a command or a document: an optional sign, then an infinity, not-a-number or a
decimal with an optional exponent. -/
def ofText? (cs : List Char) : Option Numeral :=
  let (negative, body) := splitSign cs
  if isWord "inf" body || isWord "infinity" body then some (.infinite negative)
  else if isWord "nan" body then some .notANumber
  else (Decimal.ofScientific? cs).map .decimal

end Numeral

end Winding

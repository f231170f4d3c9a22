import Winding.Number.Scalar
import Winding.Text.Blank
import Winding.Text.Reported

/-!
# Words of a recipe line

A line is cut into words, each a letter and a plain decimal. Blank characters and closed comments
in parentheses stand between words without meaning, and a semicolon ends the line (`scanWords`).
Every fault names the column at which it was found, counted in characters from 1.
-/

namespace Winding.Gcode

/-- What a word calls for. -/
inductive Code where
  | move | delay | latch | seek | clip | head | pin | pause
deriving DecidableEq, Repr, Inhabited

/-- The written form of a function code. -/
def Code.text : Code → String
  | .move => "G1"
  | .delay => "G4"
  | .latch => "G100"
  | .seek => "G102"
  | .clip => "G104"
  | .head => "G106"
  | .pin => "G108"
  | .pause => "M0"

/-- What is wrong with a line. -/
inductive Fault (R : Type) where
  | malformedNumber (raw : String)
  | unexpectedCharacter (c : Char)
  | unknownLetter (letter : Char)
  | duplicateWord (letter : Char)
  | duplicateMotion
  | parameterWithoutFunction (letter : Char)
  | unexpectedParameter (code : Code) (letter : Char)
  | missingParameter (code : Code) (letter : Char)
  | duplicateParameter (code : Code) (letter : Char)
  | invalidParameter (code : Code) (letter : Char) (raw : String)
  | unknownFunction (text : String)
  | invalidLineNumber (raw : String)
  | lineNumberRegression (previous found : Nat)
  | nonPositiveFeed (feed : R)
  | unterminatedComment
deriving Repr

/-- A fault and its column. -/
structure Misread (R : Type) where
  column : Nat
  fault : Fault R
deriving Repr

/-- A fault, its column and the line on which it stands. -/
structure ReadError (R : Type) where
  line : Nat
  column : Nat
  fault : Fault R
deriving Repr

section Message

variable {R : Type} [Scalar R]

/-- A letter between quotes. -/
def quoted (letter : Char) : String := "'" ++ letter.toString ++ "'"

/-- The fault in words. -/
def Fault.message : Fault R → String
  | .malformedNumber raw => "malformed number '" ++ raw ++ "'"
  | .unexpectedCharacter c => "unexpected character " ++ quoted c
  | .unknownLetter letter => "unknown word letter " ++ quoted letter
  | .duplicateWord letter => "duplicate " ++ quoted letter ++ " word"
  | .duplicateMotion => "more than one motion code on the line"
  | .parameterWithoutFunction letter =>
    "parameter " ++ quoted letter ++ " without a function code"
  | .unexpectedParameter code letter => code.text ++ " does not take " ++ quoted letter
  | .missingParameter code letter => code.text ++ " requires " ++ quoted letter
  | .duplicateParameter code letter => code.text ++ " given " ++ quoted letter ++ " twice"
  | .invalidParameter code letter raw =>
    code.text ++ " has invalid " ++ quoted letter ++ " value " ++ raw
  | .unknownFunction text => "unknown function code " ++ text
  | .invalidLineNumber raw => "invalid line number '" ++ raw ++ "'"
  | .lineNumberRegression previous found =>
    "line number " ++ toString found ++ " does not follow " ++ toString previous
  | .nonPositiveFeed feed => "feed must be positive, got " ++ Scalar.text feed
  | .unterminatedComment => "unterminated comment"

/-- The error in words. -/
def ReadError.message (e : ReadError R) : String :=
  "line " ++ toString e.line ++ ", column " ++ toString e.column ++ ": " ++ e.fault.message

/-- The name of the kind of fault. -/
def Fault.code : Fault R → String
  | .malformedNumber _ => "MalformedNumber"
  | .unexpectedCharacter _ => "UnexpectedCharacter"
  | .unknownLetter _ => "UnknownLetter"
  | .duplicateWord _ => "DuplicateWord"
  | .duplicateMotion => "DuplicateMotion"
  | .parameterWithoutFunction _ => "ParameterWithoutFunction"
  | .unexpectedParameter _ _ => "UnexpectedParameter"
  | .missingParameter _ _ => "MissingParameter"
  | .duplicateParameter _ _ => "DuplicateParameter"
  | .invalidParameter _ _ _ => "InvalidParameter"
  | .unknownFunction _ => "UnknownFunction"
  | .invalidLineNumber _ => "InvalidLineNumber"
  | .lineNumberRegression _ _ => "LineNumberRegression"
  | .nonPositiveFeed _ => "NonPositiveFeed"
  | .unterminatedComment => "UnterminatedComment"

instance : Reported (ReadError R) where
  code e := e.fault.code
  message := ReadError.message

end Message

/-! ## Scanning -/

/-- A letter and the number after it. -/
structure Word (R : Type) where
  /-- The letter in upper case. -/
  letter : Char
  /-- The number as it is written. -/
  raw : List Char
  value : R
  column : Nat
deriving Repr

/-- Characters that a number is made of. -/
def isNumberChar (c : Char) : Bool := c.isDigit || c = '.' || c = '+' || c = '-'

/-- What follows the first closing parenthesis. -/
def afterComment? : List Char → Option (List Char)
  | [] => none
  | c :: cs => if c = ')' then some cs else afterComment? cs

theorem length_afterComment? {cs rest : List Char} (h : afterComment? cs = some rest) :
    rest.length < cs.length := by
  induction cs with
  | nil => simp [afterComment?] at h
  | cons c cs ih =>
    simp only [afterComment?] at h
    split at h
    · cases h; simp
    · have := ih h; simp; omega

variable {R : Type} [Scalar R]

/-- The words of a line whose first character stands at `column`. -/
def scanWords (column : Nat) (text : List Char) : Except (Misread R) (List (Word R)) :=
  match text with
  | [] => .ok []
  | c :: cs =>
    if isBlank c then scanWords (column + 1) cs
    else if c = ';' then .ok []
    else if c = '(' then
      match _h : afterComment? cs with
      | none => .error ⟨column, .unterminatedComment⟩
      | some rest => scanWords (column + 1 + (cs.length - rest.length)) rest
    else if c.isAlpha then
      let raw := cs.takeWhile isNumberChar
      match Decimal.ofPlain? raw with
      | none => .error ⟨column, .malformedNumber (String.ofList raw)⟩
      | some value => do
        let words ← scanWords (column + 1 + raw.length) (cs.dropWhile isNumberChar)
        return ⟨c.toUpper, raw, Scalar.ofDecimal value, column⟩ :: words
    else .error ⟨column, .unexpectedCharacter c⟩
termination_by text.length
decreasing_by
  · simp
  · have := length_afterComment? _h; simp; omega
  · have := length_dropWhile_le isNumberChar cs; simp; omega

/-- Whole numbers of words stay below this in magnitude. -/
def wholeLimit : Int := 2 ^ (63 : Nat)

/-- The whole number that a word without a point writes. -/
def Word.whole? (w : Word R) : Option Int :=
  if w.raw.contains '.' then none
  else match Scalar.whole? w.value with
    | none => none
    | some n => if wholeLimit < n.natAbs then none else some (min n (wholeLimit - 1))

/-- The natural number below `limit` that a word writes. -/
def Word.natBelow? (limit : Nat) (w : Word R) : Option Nat :=
  w.whole?.bind fun n => if 0 ≤ n ∧ n < limit then some n.toNat else none

end Winding.Gcode

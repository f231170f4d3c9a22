import Winding.Number.Scalar

/-!
# Reports

A report is a tree of values. It is written as a JSON document on a single line: whatever the texts
in it hold, control characters are escaped (`Report.escapeChar`).
-/

namespace Winding.Operator

/-- A value in a report. -/
inductive Report (R : Type) where
  | nothing
  | flag (b : Bool)
  | whole (n : Int)
  | number (x : R)
  | text (s : String)
  | list (items : List (Report R))
  | group (fields : List (String × Report R))

namespace Report

/-! ## Values that may be missing -/

/-- A count, or nothing. -/
def wholeOr {R : Type} (n : Option Nat) : Report R := (n.map fun n => .whole n).getD .nothing

/-- A text, or nothing. -/
def textOr {R : Type} (s : Option String) : Report R := (s.map .text).getD .nothing

/-! ## Writing -/

/-- A hexadecimal digit below 16. -/
def hexDigit (n : Nat) : Char := Char.ofNat (if n < 10 then '0'.toNat + n else 'a'.toNat + (n - 10))

/-- The written form of one character of a text. -/
def escapeChar (c : Char) : List Char :=
  if c = '"' then ['\\', '"']
  else if c = '\\' then ['\\', '\\']
  else if c = '\n' then ['\\', 'n']
  else if c = '\r' then ['\\', 'r']
  else if c = '\t' then ['\\', 't']
  else if c = '\x08' then ['\\', 'b']
  else if c = '\x0c' then ['\\', 'f']
  else if c.toNat < 32 then
    ['\\', 'u', '0', '0', hexDigit (c.toNat / 16), hexDigit (c.toNat % 16)]
  else [c]

/-- A text in quotes. -/
def quoted (s : String) : String :=
  String.ofList ('"' :: s.toList.flatMap escapeChar ++ ['"'])

variable {R : Type} [Scalar R]

mutual

/-- The written form of a value. A number that is not finite has none, and counts as nothing. -/
def written : Report R → String
  | .nothing => "null"
  | .flag b => if b then "true" else "false"
  | .whole n => toString n
  | .number x => if Scalar.isFinite x then Scalar.text x else "null"
  | .text s => quoted s
  | .list items => "[" ++ String.intercalate "," (writtenItems items) ++ "]"
  | .group fields => "\x7b" ++ String.intercalate "," (writtenFields fields) ++ "\x7d"

/-- The written forms of the values in a list. -/
def writtenItems : List (Report R) → List String
  | [] => []
  | item :: items => written item :: writtenItems items

/-- The written forms of fields. -/
def writtenFields : List (String × Report R) → List String
  | [] => []
  | (key, value) :: fields => (quoted key ++ ":" ++ written value) :: writtenFields fields

end

end Report

end Winding.Operator

import Winding.Markup.Document
import Winding.Number.Double
import Winding.Text.Blank
import Winding.Toml.Value

/-!
# TOML strings, numbers and times

Strings are read from their opening quotes on, and everything else from a bare token.
-/

namespace Winding.Toml

/-- Characters that no comment and no string may hold as they are. -/
def isForbidden (c : Char) : Bool :=
  (c.toNat < 0x20 && c ≠ '\t') || c.toNat = 0x7F

/-- Drops a newline, with or without a carriage return. -/
def newline? : List Char → Option (List Char)
  | '\n' :: cs => some cs
  | '\r' :: '\n' :: cs => some cs
  | _ => none

/-- Drops spaces and tabs. -/
def skipSpaces (cs : List Char) : List Char := cs.dropWhile fun c => c = ' ' || c = '\t'

/-! ## Strings -/

/-- A code point of a given count of hexadecimal digits. -/
def codePoint? (count : Nat) (cs : List Char) : Option (Char × List Char) :=
  let digits := cs.take count
  if digits.length < count then none
  else do
    let n ← digits.foldlM (fun n c => (Markup.hexValue? c).map (n * 16 + ·)) 0
    if h : n.isValidChar then return (Char.ofNatAux n h, cs.drop count) else none

/-- The character after a backslash. -/
def escaped? : List Char → Option (Char × List Char)
  | 'b' :: cs => some ('\x08', cs)
  | 't' :: cs => some ('\t', cs)
  | 'n' :: cs => some ('\n', cs)
  | 'f' :: cs => some ('\x0c', cs)
  | 'r' :: cs => some ('\r', cs)
  | '"' :: cs => some ('"', cs)
  | '\\' :: cs => some ('\\', cs)
  | 'u' :: cs => codePoint? 4 cs
  | 'U' :: cs => codePoint? 8 cs
  | _ => none

/-- A string on one line after its opening quote. Only double quotes allow escapes. -/
def line? (fuel : Nat) (quote : Char) (cs : List Char) : Option (List Char × List Char) :=
  match fuel with
  | 0 => none
  | fuel + 1 =>
    match cs with
    | [] => none
    | c :: rest =>
      if c = quote then some ([], rest)
      else if isForbidden c then none
      else if c = '\\' && quote = '"' then do
        let (d, rest) ← escaped? rest
        let (text, rest) ← line? fuel quote rest
        return (d :: text, rest)
      else do
        let (text, rest) ← line? fuel quote rest
        return (c :: text, rest)

/-- What follows a backslash at the end of a line: blanks and newlines are dropped. -/
def continuation? (cs : List Char) : Option (List Char) := do
  let rest ← newline? (skipSpaces cs)
  return rest.dropWhile fun c => c = ' ' || c = '\t' || c = '\n' || c = '\r'

/-- A string over several lines after its opening quotes. It ends with three quotes, and up to two
more in front of them belong to it. -/
def lines? (fuel : Nat) (quote : Char) (cs : List Char) : Option (List Char × List Char) :=
  match fuel with
  | 0 => none
  | fuel + 1 =>
    match cs with
    | [] => none
    | c :: rest =>
      if c = quote then
        let run := (cs.takeWhile (· = quote)).length
        let rest := cs.drop run
        if 5 < run then none
        else if 3 ≤ run then some (List.replicate (run - 3) quote, rest)
        else do
          let (text, rest) ← lines? fuel quote rest
          return (List.replicate run quote ++ text, rest)
      else if c = '\\' && quote = '"' then
        match continuation? rest with
        | some rest => lines? fuel quote rest
        | none => do
          let (d, rest) ← escaped? rest
          let (text, rest) ← lines? fuel quote rest
          return (d :: text, rest)
      else if c = '\r' && rest.head? ≠ some '\n' then none
      else if isForbidden c && c ≠ '\n' && c ≠ '\r' then none
      else do
        let (text, rest) ← lines? fuel quote rest
        return (c :: text, rest)

/-- A string on one line. -/
def lineString? (cs : List Char) : Option (String × List Char) :=
  match cs with
  | quote :: rest =>
    if quote = '"' || quote = '\'' then
      (line? (rest.length + 1) quote rest).map fun (text, rest) => (String.ofList text, rest)
    else none
  | [] => none

/-- A string of any form. A newline right after opening quotes of three is dropped. -/
def string? (cs : List Char) : Option (String × List Char) :=
  match cs with
  | a :: b :: c :: rest =>
    if (a = '"' || a = '\'') && b = a && c = a then
      let body := (newline? rest).getD rest
      (lines? (body.length + 1) a body).map fun (text, rest) => (String.ofList text, rest)
    else lineString? cs
  | _ => lineString? cs

/-! ## Numbers -/

/-- Drops the underscores between digits; any other is a fault. -/
def digits? (isDigit : Char → Bool) : List Char → Option (List Char)
  | [] => none
  | [c] => if isDigit c then some [c] else none
  | c :: '_' :: rest => if isDigit c then (digits? isDigit rest).map (c :: ·) else none
  | c :: rest => if isDigit c then (digits? isDigit rest).map (c :: ·) else none

/-- A whole number in base 2, 8 or 16 after its mark. -/
def based? (base : Nat) (cs : List Char) : Option Nat := do
  let digits ← digits? (fun c => (Markup.hexValue? c).any (· < base)) cs
  Markup.codeOf? base digits

/-- Decimal digits without a needless zero in front. -/
def decimalDigits? (cs : List Char) : Option (List Char) := do
  let digits ← digits? Char.isDigit cs
  if digits.head? = some '0' && digits.length ≠ 1 then none else some digits

/-- Whole numbers lie from this below zero up to twice this. -/
def wholeLimit : Int := 2 ^ (127 : Nat)

/-- A whole number. -/
def whole? (cs : List Char) : Option Int :=
  let value : Option Int := match cs with
    | '0' :: 'x' :: rest => (based? 16 rest).map Int.ofNat
    | '0' :: 'o' :: rest => (based? 8 rest).map Int.ofNat
    | '0' :: 'b' :: rest => (based? 2 rest).map Int.ofNat
    | _ =>
      let (negative, body) := splitSign cs
      (decimalDigits? body).map fun digits =>
        let n : Int := natOfDigits digits
        if negative then -n else n
  value.filter fun n => -wholeLimit ≤ n && n < 2 * wholeLimit

/-- The exponent of a number: a letter, a sign and digits. -/
def exponentDigits? : List Char → Option (List Char)
  | [] => some []
  | mark :: rest =>
    if mark = 'e' || mark = 'E' then
      let sign := rest.takeWhile fun c => c = '+' || c = '-'
      if 1 < sign.length then none
      else (digits? Char.isDigit (rest.drop sign.length)).map fun digits => 'e' :: sign ++ digits
    else none

/-- A number with a fraction, an exponent or both, without underscores. -/
def plainNumber? (cs : List Char) : Option (List Char) := do
  let inMantissa (c : Char) : Bool := c ≠ 'e' && c ≠ 'E'
  let mantissa := cs.takeWhile inMantissa
  let exponent ← exponentDigits? (cs.dropWhile inMantissa)
  let whole ← decimalDigits? (mantissa.takeWhile (· ≠ '.'))
  match mantissa.dropWhile (· ≠ '.') with
  | [] => if exponent.isEmpty then none else return whole ++ exponent
  | _ :: fraction => return whole ++ '.' :: (← digits? Char.isDigit fraction) ++ exponent

/-- A number that is not whole. A finite one must be within the range of 64 bits. -/
def number? (cs : List Char) : Option Numeral :=
  let (negative, body) := splitSign cs
  if body = "inf".toList then some (.infinite negative)
  else if body = "nan".toList then some .notANumber
  else (plainNumber? body).bind fun plain =>
    (Numeral.ofText? (if negative then '-' :: plain else plain)).filter fun x =>
      BinaryNumber.ofNumeral .double x ≠ .infinite negative

/-! ## Times -/

/-- A field of digits with a fixed width and a range. -/
def field? (width low high : Nat) (cs : List Char) : Option (Nat × List Char) := do
  let n ← natOfDigits? (cs.take width)
  if (cs.take width).length = width && low ≤ n && n ≤ high then return (n, cs.drop width) else none

/-- Drops one given character. -/
def expect? (c : Char) : List Char → Option (List Char)
  | d :: rest => if d = c then some rest else none
  | [] => none

/-- Days of a month. -/
def daysIn (year month : Nat) : Nat :=
  if month = 2 then
    if year % 4 = 0 && (year % 100 ≠ 0 || year % 400 = 0) then 29 else 28
  else if month = 4 || month = 6 || month = 9 || month = 11 then 30
  else 31

/-- What follows a date. -/
def afterDate? (cs : List Char) : Option (List Char) := do
  let (year, cs) ← field? 4 0 9999 cs
  let (month, cs) ← field? 2 1 12 (← expect? '-' cs)
  let (_, cs) ← field? 2 1 (daysIn year month) (← expect? '-' cs)
  return cs

/-- What follows a time of day. -/
def afterTime? (cs : List Char) : Option (List Char) := do
  let (_, cs) ← field? 2 0 23 cs
  let (_, cs) ← field? 2 0 59 (← expect? ':' cs)
  let (_, cs) ← field? 2 0 60 (← expect? ':' cs)
  match cs with
  | '.' :: fraction =>
    if (fraction.takeWhile Char.isDigit).isEmpty then none
    else return fraction.dropWhile Char.isDigit
  | _ => return cs

/-- Whether a text is an offset from universal time, or nothing. -/
def isOffset (cs : List Char) : Bool :=
  match cs with
  | [] | ['Z'] | ['z'] => true
  | sign :: rest => (sign = '+' || sign = '-') && ((do
      let (_, rest) ← field? 2 0 23 rest
      let (_, rest) ← field? 2 0 59 (← expect? ':' rest)
      return rest.isEmpty : Option Bool) = some true)

/-- Whether a text is a date, a time, or both. -/
def isMoment (cs : List Char) : Bool :=
  match afterDate? cs with
  | some [] => true
  | some (mark :: rest) =>
    (mark = 'T' || mark = 't' || mark = ' ') && (afterTime? rest).any isOffset
  | none => (afterTime? cs).any List.isEmpty

/-! ## Tokens -/

/-- Characters of a bare token. -/
def inToken (c : Char) : Bool :=
  c.isAlphanum || c = '_' || c = '-' || c = '+' || c = '.' || c = ':'

/-- The token at the start of a text; a date and a time with one space between are one token. -/
def token (cs : List Char) : List Char × List Char :=
  let word := cs.takeWhile inToken
  let rest := cs.dropWhile inToken
  match rest with
  | ' ' :: c :: rest' =>
    if afterDate? word = some [] && c.isDigit then
      (word ++ ' ' :: (c :: rest').takeWhile inToken, (c :: rest').dropWhile inToken)
    else (word, rest)
  | _ => (word, rest)

/-- The value of a bare token. -/
def tokenValue? (word : List Char) : Option Value :=
  if word = "true".toList then some (.boolean true)
  else if word = "false".toList then some (.boolean false)
  else match whole? word with
    | some n => some (.whole n)
    | none =>
      match number? word with
      | some x => some (.number x)
      | none => if isMoment word then some .moment else none

end Winding.Toml

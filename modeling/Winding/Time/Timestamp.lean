import Winding.Number.Decimal
import Winding.Text.Blank

/-!
# Points in time

A `Timestamp` is a date and a time of day in universal time, kept as its calendar fields. It is
written as RFC 3339 prescribes, with as many groups of three decimals as it needs
(`Timestamp.text`). The reader is more lenient (`Timestamp.ofText?`): blanks may stand around the
fields of the date and the time, years may be signed, and any offset is taken away.
-/

namespace Winding

/-- A date and a time of day in universal time. -/
structure Timestamp where
  year : Int
  month : Nat
  day : Nat
  hour : Nat
  minute : Nat
  /-- Up to 60, for a leap second. -/
  second : Nat
  nanosecond : Nat
deriving DecidableEq, Repr, Inhabited

namespace Timestamp

/-- The start of 1970. -/
def epoch : Timestamp := ⟨1970, 1, 1, 0, 0, 0, 0⟩

/-! ## The calendar -/

/-- Whether a year has a 29th of February. -/
def isLeapYear (year : Int) : Bool := year % 4 = 0 && (year % 100 ≠ 0 || year % 400 = 0)

/-- Days of a month. -/
def daysIn (year : Int) (month : Nat) : Nat :=
  if month = 2 then if isLeapYear year then 29 else 28
  else if month = 4 || month = 6 || month = 9 || month = 11 then 30
  else 31

/-- The same time on the next day. -/
def nextDay (t : Timestamp) : Timestamp :=
  if t.day < daysIn t.year t.month then { t with day := t.day + 1 }
  else if t.month < 12 then { t with month := t.month + 1, day := 1 }
  else { t with year := t.year + 1, month := 1, day := 1 }

/-- The same time on the day before. -/
def previousDay (t : Timestamp) : Timestamp :=
  if 1 < t.day then { t with day := t.day - 1 }
  else if 1 < t.month then { t with month := t.month - 1, day := daysIn t.year (t.month - 1) }
  else { t with year := t.year - 1, month := 12, day := 31 }

/-- Minutes of a day. -/
def dayMinutes : Int := 24 * 60

/-- The time of day in minutes. -/
def minuteOfDay (t : Timestamp) : Int := (t.hour * 60 + t.minute : Nat)

/-- The timestamp with its time of day set from minutes. -/
def withMinute (t : Timestamp) (m : Nat) : Timestamp := { t with hour := m / 60, minute := m % 60 }

/-- Takes less than a day's count of minutes away. -/
def earlier (t : Timestamp) (minutes : Int) : Timestamp :=
  let m := t.minuteOfDay - minutes
  if m < 0 then t.previousDay.withMinute (m + dayMinutes).toNat
  else if dayMinutes ≤ m then t.nextDay.withMinute (m - dayMinutes).toNat
  else t.withMinute m.toNat

/-- The years that dates may have. -/
def yearInRange (year : Int) : Bool := -262143 ≤ year && year ≤ 262142

/-- Whether the fields are those of a date and a time. -/
def isValid (t : Timestamp) : Bool :=
  yearInRange t.year && 1 ≤ t.month && t.month ≤ 12 && 1 ≤ t.day && t.day ≤ daysIn t.year t.month &&
    t.hour < 24 && t.minute < 60 && t.second ≤ 60

/-! ## Writing -/

/-- Digits with zeros in front, up to a width. -/
def padded (width n : Nat) : String :=
  String.ofList (List.replicate (width - (digitsOf n).length) '0' ++ digitsOf n)

/-- The year: four digits, or a sign in front of at least four. -/
def yearText (year : Int) : String :=
  let digits := padded 4 year.natAbs
  if year < 0 then "-" ++ digits else if 9999 < year then "+" ++ digits else digits

/-- The fraction of a second, in groups of three decimals. -/
def fractionText (n : Nat) : String :=
  if n = 0 then ""
  else if n % 1000000 = 0 then "." ++ padded 3 (n / 1000000)
  else if n % 1000 = 0 then "." ++ padded 6 (n / 1000)
  else "." ++ padded 9 n

/-- The date and the time of day. -/
def localText (t : Timestamp) : String :=
  yearText t.year ++ "-" ++ padded 2 t.month ++ "-" ++ padded 2 t.day ++ "T" ++ padded 2 t.hour ++
    ":" ++ padded 2 t.minute ++ ":" ++ padded 2 t.second ++ fractionText t.nanosecond

/-- The text in documents. -/
def text (t : Timestamp) : String := t.localText ++ "Z"

/-- The text in the log, with a numeric offset. -/
def logText (t : Timestamp) : String := t.localText ++ "+00:00"

/-! ## Reading -/

/-- A number of at most `width` digits, after blanks. -/
def number? (width : Nat) (cs : List Char) : Option (Nat × List Char) := do
  let cs := trimStart cs
  let digits := (cs.takeWhile Char.isDigit).take width
  return (← natOfDigits? digits, cs.drop digits.length)

/-- A year: up to four digits, or any count of them after a sign. -/
def year? (cs : List Char) : Option (Int × List Char) :=
  match trimStart cs with
  | sign :: rest =>
    if sign = '-' || sign = '+' then
      let digits := rest.takeWhile Char.isDigit
      (natOfDigits? digits).map fun n =>
        (if sign = '-' then -(n : Int) else n, rest.drop digits.length)
    else (number? 4 (sign :: rest)).map fun (n, rest) => ((n : Int), rest)
  | [] => none

/-- Drops one given character after blanks. -/
def mark? (c : Char) (cs : List Char) : Option (List Char) :=
  match trimStart cs with
  | d :: rest => if d = c then some rest else none
  | [] => none

/-- A fraction of a second in nanoseconds; decimals after the ninth do not count. -/
def fraction? : List Char → Option (Nat × List Char)
  | '.' :: cs =>
    let digits := (cs.takeWhile Char.isDigit).take 9
    (natOfDigits? digits).map fun n => (n * 10 ^ (9 - digits.length), cs.dropWhile Char.isDigit)
  | cs => some (0, cs)

/-- Two digits right at the start. -/
def twoDigits? : List Char → Option (Nat × List Char)
  | a :: b :: cs => (natOfDigits? [a, b]).map (·, cs)
  | _ => none

/-- An offset from universal time in minutes, less than a day. -/
def offset? (cs : List Char) : Option (Int × List Char) :=
  match cs with
  | sign :: rest =>
    if sign = 'Z' || sign = 'z' then some (0, rest)
    else if lowerAscii (cs.take 3) = "utc".toList then some (0, cs.drop 3)
    else if sign = '+' || sign = '-' || sign = '\u2212' then do
      let (hours, rest) ← twoDigits? rest
      let (minutes, rest) ← twoDigits? (rest.dropWhile fun c => c = ':' || isBlank c)
      if hours < 24 && minutes < 60 then
        let total : Int := (hours * 60 + minutes : Nat)
        return (if sign = '+' then total else -total, rest)
      else none
    else none
  | [] => none

/-- Drops the mark between a date and a time. -/
def separator? : List Char → Option (List Char)
  | c :: cs => if c = 'T' || c = 't' || c = ' ' then some cs else none
  | [] => none

/-- The timestamp that a text writes. -/
def ofText? (s : String) : Option Timestamp := do
  let (year, cs) ← year? s.toList
  let (month, cs) ← number? 2 (← mark? '-' cs)
  let (day, cs) ← number? 2 (← mark? '-' cs)
  let (hour, cs) ← number? 2 (← separator? cs)
  let (minute, cs) ← number? 2 (← mark? ':' cs)
  let (second, cs) ← number? 2 (← mark? ':' cs)
  let (nanosecond, cs) ← fraction? cs
  let (offset, cs) ← offset? (trimStart cs)
  let t : Timestamp := ⟨year, month, day, hour, minute, second, nanosecond⟩
  if !(trimStart cs).isEmpty || !t.isValid then none
  else
    let t := t.earlier offset
    if yearInRange t.year then some t else none

end Timestamp

end Winding

import Winding.Gcode.Command
import Winding.Gcode.Word

/-!
# Reading recipe lines

Words become commands by one rule: a parameter word belongs to the nearest function code before it,
the axis words of a line make one move, and every other `F` is the feed of the line. A line number
must be above the last accepted one, and is the next one when it is not given (`readLine`). Only
accepted lines are remembered (`lastNumber`).
-/

namespace Winding.Gcode

/-! ## Function codes -/

/-- The code that a letter and a number stand for. -/
def Code.ofNumber? : Char → Nat → Option Code
  | 'G', 0 => some .move
  | 'G', 1 => some .move
  | 'G', 4 => some .delay
  | 'G', 100 => some .latch
  | 'G', 102 => some .seek
  | 'G', 104 => some .clip
  | 'G', 106 => some .head
  | 'G', 108 => some .pin
  | 'M', 0 => some .pause
  | _, _ => none

/-- Whether a code takes a parameter. -/
def Code.accepts : Code → Char → Bool
  | .delay, c | .latch, c | .seek, c | .head, c => c = 'P'
  | .pin, c => c = 'F' || c = 'B' || c = 'I' || c = 'J'
  | .move, _ | .clip, _ | .pause, _ => false

/-! ## Gathering the words of a line -/

/-- A place in the order of a line's commands: the move of its axis words, or a function code with
its parameters. -/
inductive Slot (R : Type) where
  | axes
  | call (code : Code) (column : Nat) (params : List (Word R))
deriving Repr

/-- What the words of a line so far amount to. -/
structure Draft (R : Type) where
  /-- The line number and its column. -/
  number : Option (Nat × Nat)
  feed : Option R
  target : Target R
  /-- The commands so far, the latest first. -/
  slots : List (Slot R)
  /-- Whether the move of the axis words has its place. -/
  placed : Bool
deriving Repr

/-- Nothing read yet. -/
def Draft.start {R : Type} : Draft R := ⟨none, none, ⟨none, none, none⟩, [], false⟩

/-- Line numbers are kept in 32 bits. -/
def numberLimit : Nat := UInt32.size

/-- The code that takes parameters now: that of the latest call. -/
def openCode? {R : Type} : List (Slot R) → Option Code
  | [] => none
  | .call code _ _ :: _ => some code
  | .axes :: rest => openCode? rest

/-- The slots with a parameter added to the latest call. -/
def attach {R : Type} (w : Word R) : List (Slot R) → List (Slot R)
  | [] => []
  | .call code column params :: rest => .call code column (params ++ [w]) :: rest
  | .axes :: rest => .axes :: attach w rest

/-- Whether a slot calls for a move. -/
def Slot.isMoveCall {R : Type} : Slot R → Bool
  | .call .move _ _ => true
  | _ => false

/-- Whether a slot is the move of the axis words. -/
def Slot.isAxes {R : Type} : Slot R → Bool
  | .axes => true
  | _ => false

variable {R : Type} [Scalar R]

namespace Draft

/-- The value of an axis that is given already. -/
def axis? (d : Draft R) (letter : Char) : Option R :=
  if letter = 'X' then d.target.x else if letter = 'Y' then d.target.y else d.target.z

/-- The target with one more axis. -/
def withAxis (t : Target R) (letter : Char) (value : R) : Target R :=
  if letter = 'X' then { t with x := some value }
  else if letter = 'Y' then { t with y := some value }
  else { t with z := some value }

/-- Takes a line number. -/
def takeNumber (d : Draft R) (w : Word R) : Except (Misread R) (Draft R) :=
  if d.number.isSome then .error ⟨w.column, .duplicateWord 'N'⟩
  else match w.natBelow? numberLimit with
    | none => .error ⟨w.column, .invalidLineNumber (String.ofList w.raw)⟩
    | some n => .ok { d with number := some (n, w.column) }

/-- Takes an axis target; the first one fixes the place of the move. -/
def takeAxis (d : Draft R) (w : Word R) : Except (Misread R) (Draft R) :=
  if (d.axis? w.letter).isSome then .error ⟨w.column, .duplicateWord w.letter⟩
  else .ok { d with
    target := withAxis d.target w.letter w.value
    slots := if d.placed then d.slots else .axes :: d.slots
    placed := true }

/-- Takes the feed of the line. -/
def takeFeed (d : Draft R) (w : Word R) : Except (Misread R) (Draft R) :=
  if d.feed.isSome then .error ⟨w.column, .duplicateWord 'F'⟩
  else if Scalar.le w.value Scalar.zero then .error ⟨w.column, .nonPositiveFeed w.value⟩
  else .ok { d with feed := some w.value }

/-- Takes a parameter of the latest call. -/
def takeParameter (d : Draft R) (w : Word R) : Except (Misread R) (Draft R) :=
  if (openCode? d.slots).isNone then .error ⟨w.column, .parameterWithoutFunction w.letter⟩
  else .ok { d with slots := attach w d.slots }

/-- Takes a function code. A move code takes over the place of the axis words. -/
def takeCode (d : Draft R) (w : Word R) : Except (Misread R) (Draft R) :=
  match (w.natBelow? numberLimit).bind (Code.ofNumber? w.letter) with
  | none => .error ⟨w.column, .unknownFunction (String.ofList (w.letter :: w.raw))⟩
  | some .move =>
    if d.slots.any Slot.isMoveCall then .error ⟨w.column, .duplicateMotion⟩
    else .ok { d with
      slots := .call .move w.column [] :: d.slots.filter (!·.isAxes)
      placed := true }
  | some code => .ok { d with slots := .call code w.column [] :: d.slots }

/-- Takes one more word. -/
def take (d : Draft R) (w : Word R) : Except (Misread R) (Draft R) :=
  match w.letter with
  | 'N' => d.takeNumber w
  | 'X' | 'Y' | 'Z' => d.takeAxis w
  | 'F' => if openCode? d.slots = some .pin then d.takeParameter w else d.takeFeed w
  | 'B' =>
    if openCode? d.slots = some .pin then d.takeParameter w
    else .error ⟨w.column, .unknownLetter 'B'⟩
  | 'P' | 'Q' | 'R' | 'I' | 'J' => d.takeParameter w
  | 'G' | 'M' => d.takeCode w
  | other => .error ⟨w.column, .unknownLetter other⟩

end Draft

/-- The draft of a line's words. -/
def gather (words : List (Word R)) : Except (Misread R) (Draft R) := words.foldlM Draft.take .start

/-! ## From calls to commands -/

/-- The first parameter that a code does not take or that is repeated. -/
def parameterFault? (code : Code) (seen : List Char) : List (Word R) → Option (Misread R)
  | [] => none
  | w :: ws =>
    if !code.accepts w.letter then some ⟨w.column, .unexpectedParameter code w.letter⟩
    else if seen.contains w.letter then some ⟨w.column, .duplicateParameter code w.letter⟩
    else parameterFault? code (w.letter :: seen) ws

/-- The parameter with a letter. -/
def param? (params : List (Word R)) (letter : Char) : Option (Word R) :=
  params.find? (·.letter == letter)

/-- The fault of a parameter whose value is out of its range. -/
def invalid (code : Code) (w : Word R) : Misread R :=
  ⟨w.column, .invalidParameter code w.letter (String.ofList w.raw)⟩

/-- The required parameter `P`, read by `read`. -/
def requireP {α : Type} (code : Code) (column : Nat) (params : List (Word R))
    (read : Word R → Option α) : Except (Misread R) α :=
  match param? params 'P' with
  | none => .error ⟨column, .missingParameter code 'P'⟩
  | some w => match read w with
    | none => .error (invalid code w)
    | some a => .ok a

/-- An optional pin ordinal, from 1. -/
def pinParam (params : List (Word R)) (letter : Char) : Except (Misread R) (Option Nat) :=
  match param? params letter with
  | none => .ok none
  | some w => match (w.natBelow? Pin.ordinalLimit).filter (1 ≤ ·) with
    | none => .error (invalid .pin w)
    | some n => .ok (some n)

/-- Delays are kept in 64 bits. -/
def delayLimit : Nat := UInt64.size

/-- The command of a call, on a line with this target and feed. -/
def commandOf (target : Target R) (feed : Option R) (code : Code) (column : Nat)
    (params : List (Word R)) : Except (Misread R) (Command R) :=
  match parameterFault? code [] params with
  | some fault => .error fault
  | none =>
    match code with
    | .move => .ok (.move target feed)
    | .delay => .delay <$> requireP code column params (Word.natBelow? delayLimit)
    | .latch => .latch <$> requireP code column params fun w => w.whole?.bind Side.ofCode?
    | .head => .head <$> requireP code column params fun w => w.whole?.bind Side.ofCode?
    | .seek => .seek <$> requireP code column params fun w => w.whole?.bind TransferEdge.ofMask?
    | .clip => .ok .clip
    | .pause => .ok .pause
    | .pin => do
      let front ← pinParam params 'F'
      let back ← pinParam params 'B'
      if front.isNone && back.isNone then .error ⟨column, .missingParameter .pin 'F'⟩
      else
        let offset (letter : Char) : R := ((param? params letter).map Word.value).getD Scalar.zero
        .ok (.pin front back (offset 'I') (offset 'J'))

/-- The command of a slot. -/
def Slot.command (target : Target R) (feed : Option R) : Slot R → Except (Misread R) (Command R)
  | .axes => .ok (.move target feed)
  | .call code column params => commandOf target feed code column params

/-! ## Lines and programs -/

/-- The number of a line after the last accepted one. -/
def lineNumber (last : Option Nat) : Option (Nat × Nat) → Except (Misread R) Nat
  | some (n, column) =>
    match last with
    | some previous =>
      if n ≤ previous then .error ⟨column, .lineNumberRegression previous n⟩ else .ok n
    | none => .ok n
  | none =>
    match last with
    | some previous =>
      if previous + 1 < numberLimit then .ok (previous + 1)
      else .error ⟨1, .lineNumberRegression previous previous⟩
    | none => .ok 1

/-- The statement that the words of a line make, after the last accepted number. -/
def lineOfWords (last : Option Nat) (source : Nat) (words : List (Word R)) :
    Except (Misread R) (Line R) := do
  let d ← gather words
  let number ← lineNumber last d.number
  let commands ← d.slots.reverse.mapM (Slot.command d.target d.feed)
  return ⟨number, d.feed, commands, source⟩

/-- Reads one line; a line without words is no statement. -/
def readWords (last : Option Nat) (source : Nat) (text : List Char) :
    Except (Misread R) (Option (Line R)) := do
  let words ← scanWords 1 text
  if words.isEmpty then return none
  else some <$> lineOfWords last source words

/-- Reads line number `source` of a text, after the last accepted line number. -/
def readLine (last : Option Nat) (source : Nat) (text : List Char) :
    Except (ReadError R) (Option (Line R)) :=
  (readWords last source text).mapError fun e => ⟨source, e.column, e.fault⟩

/-- The last accepted line number after a line was read. -/
def lastNumber (last : Option Nat) : Except (ReadError R) (Option (Line R)) → Option Nat
  | .ok (some line) => some line.number
  | _ => last

/-- What each text reads as, from number `source` on. A text that cannot be read leaves no trace in
what the ones after it read as. -/
def readEach (last : Option Nat) (source : Nat) :
    List (List Char) → List (Except (ReadError R) (Option (Line R)))
  | [] => []
  | text :: texts =>
    let result := readLine last source text
    result :: readEach (lastNumber last result) (source + 1) texts

/-- Reads the lines from number `source` on, each after the ones before it. -/
def readLines (last : Option Nat) (source : Nat) :
    List (List Char) → Except (ReadError R) (List (Line R))
  | [] => .ok []
  | text :: texts => do
    match ← readLine last source text with
    | none => readLines last (source + 1) texts
    | some line => (line :: ·) <$> readLines (some line.number) (source + 1) texts

/-- Reads a whole program. -/
def readProgram (text : String) : Except (ReadError R) (List (Line R)) :=
  readLines none 1 (linesOf text.toList)

/-- The program's canonical text, one statement a line. -/
def programText (lines : List (Line R)) : String := String.intercalate "\n" (lines.map Line.text)

end Winding.Gcode

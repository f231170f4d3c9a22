import Winding.Calibration.Pin
import Winding.Geometry.Location
import Winding.Geometry.Side
import Winding.Number.Decimal
import Winding.Text.Blank
import Winding.Text.Reported

/-!
# Operator commands

An operator writes one command on a line, in words. The first word is the name of the command, in
upper or lower case; the others are its arguments. Every number in a command is finite, and a
velocity is positive (`Command.ofText`).
-/

namespace Winding.Operator

/-- What an operator asks for. -/
inductive Command (R : Type) where
  | start
  | stop
  | jog (target : Location R) (velocity : Option R)
  | head (side : Side)
  | latch (side : Side)
  | load (recipe : String) (line : Option Nat)
  | status
  | calibrate (pin : Pin)
  | shutdown
deriving Repr

/-- Why a line is no command. -/
inductive CommandError where
  | empty
  | unknown (name : String)
  | usage (form : String)
  | invalidNumber (word : String)
  | invalidVelocity (word : String)
  | invalidSide (word : String)
  | invalidPin (word : String)
deriving DecidableEq, Repr

/-- The error in words. -/
def CommandError.message : CommandError → String
  | .empty => "empty command"
  | .unknown name => "unknown command '" ++ name ++ "'"
  | .usage form => "usage: " ++ form
  | .invalidNumber word => "invalid number '" ++ word ++ "'"
  | .invalidVelocity word => "velocity must be positive, got '" ++ word ++ "'"
  | .invalidSide word => "unknown side '" ++ word ++ "'"
  | .invalidPin word => "invalid pin '" ++ word ++ "'"

instance : Reported CommandError where
  code
    | .empty => "Empty"
    | .unknown _ => "Unknown"
    | .usage _ => "Usage"
    | .invalidNumber _ => "InvalidNumber"
    | .invalidVelocity _ => "InvalidVelocity"
    | .invalidSide _ => "InvalidSide"
    | .invalidPin _ => "InvalidPin"
  message := CommandError.message

namespace Command

variable {R : Type} [Scalar R]

/-! ## Arguments -/

/-- A finite number. -/
def number (word : String) : Except CommandError R :=
  match Scalar.ofText? word with
  | some (x : R) => if Scalar.isFinite x then .ok x else .error (.invalidNumber word)
  | none => .error (.invalidNumber word)

/-- A finite number above zero. -/
def velocity (word : String) : Except CommandError R := do
  let v : R ← number word
  if Scalar.le v Scalar.zero then .error (.invalidVelocity word) else .ok v

/-- A side, by name or code. -/
def side (word : String) : Except CommandError Side :=
  match Side.ofText? word with
  | some s => .ok s
  | none => .error (.invalidSide word)

/-- A pin. -/
def pin (word : String) : Except CommandError Pin :=
  match Pin.ofText? word with
  | some p => .ok p
  | none => .error (.invalidPin word)

/-- Line numbers are kept in 64 bits. -/
def lineLimit : Nat := UInt64.size

/-- The number of a line. -/
def line (word : String) : Except CommandError Nat :=
  match natBelow? lineLimit word.toList with
  | some n => .ok n
  | none => .error (.invalidNumber word)

/-- A command without arguments. -/
def alone (name : String) (command : Command R) : List String → Except CommandError (Command R)
  | [] => .ok command
  | _ => .error (.usage name)

/-- A target, and a velocity if there is a fourth word. -/
def jogOf : List String → Except CommandError (Command R)
  | [x, y, z] => return .jog ⟨← number x, ← number y, ← number z⟩ none
  | [x, y, z, v] => return .jog ⟨← number x, ← number y, ← number z⟩ (some (← velocity v))
  | _ => .error (.usage "jog <x> <y> <z> [velocity]")

/-- A recipe, and a line if there is a second word. -/
def loadOf : List String → Except CommandError (Command R)
  | [recipe] => .ok (.load recipe none)
  | [recipe, word] => return .load recipe (some (← line word))
  | _ => .error (.usage "load <recipe> [line]")

/-! ## Commands -/

/-- The command of a name in lower case and its arguments. -/
def ofName (name : String) (arguments : List String) : Except CommandError (Command R) :=
  match name with
  | "start" => alone name .start arguments
  | "stop" => alone name .stop arguments
  | "status" => alone name .status arguments
  | "shutdown" => alone name .shutdown arguments
  | "jog" => jogOf arguments
  | "load" => loadOf arguments
  | "head" =>
    match arguments with
    | [word] => return .head (← side word)
    | _ => .error (.usage "head <side>")
  | "latch" =>
    match arguments with
    | [word] => return .latch (← side word)
    | _ => .error (.usage "latch <side>")
  | "calibrate" =>
    match arguments with
    | [word] => return .calibrate (← pin word)
    | _ => .error (.usage "calibrate <pin>")
  | other => .error (.unknown other)

/-- The command of a list of words. -/
def ofWords : List (List Char) → Except CommandError (Command R)
  | [] => .error .empty
  | name :: arguments => ofName (String.ofList (lowerAscii name)) (arguments.map String.ofList)

/-- The command on a line. -/
def ofText (s : String) : Except CommandError (Command R) := ofWords (wordsOf s.toList)

end Command

end Winding.Operator

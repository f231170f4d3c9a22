import Winding.Execution.Session
import Winding.Record.Store

/-!
# Modes

The machine is in one mode at a time, and each mode has its own work. Requests wait for the mode
that carries them out.
-/

namespace Winding

/-- What the machine is doing. -/
inductive Mode where
  | stop | manual | wind | calibration
deriving DecidableEq, Repr, Inhabited

/-- The name of a mode. -/
def Mode.text : Mode → String
  | .stop => "stop"
  | .manual => "manual"
  | .wind => "wind"
  | .calibration => "calibration"

/-- The name of a mode with a capital. -/
def Mode.title (m : Mode) : String := m.text.capitalize

/-- A single motion that an operator asks for. -/
inductive ManualRequest (R : Type) where
  | jog (target : Location R) (velocity : Option R)
  | head (side : Side)
  | latch (side : Side)
deriving Repr

/-- How far the visit to a pin is. -/
inductive PinVisit where
  | none
  | wanted (pin : Pin)
  /-- The move to the pin was queued. -/
  | issued (pin : Pin)
deriving DecidableEq, Repr

/-- The pin of a visit. -/
def PinVisit.pin? : PinVisit → Option Pin
  | .none => Option.none
  | .wanted pin | .issued pin => some pin

/-- Why the machine cannot go on. -/
inductive MachineError (R : Type) where
  | persistence (error : PersistenceError)
  | geometry (error : GeometryError R)
  | executor (error : ExecutorError R)
deriving Repr

/-- The error in words. -/
def MachineError.message {R : Type} [Scalar R] : MachineError R → String
  | .persistence e => "Persistence error: " ++ e.message
  | .geometry e => "Geometry error: " ++ e.message
  | .executor e => "Handler error: " ++ e.message

instance {R : Type} [Scalar R] : Reported (MachineError R) where
  code
    | .persistence e => "Persistence." ++ Reported.code e
    | .geometry e => "Geometry." ++ Reported.code e
    | .executor e => "Handler." ++ Reported.code e
  message := MachineError.message

end Winding

import Winding.Gcode.RecipeFile
import Winding.Motion.Queue
import Winding.Planning.Line
import Winding.Text.Reported

/-!
# Recipe sessions

A session is a recipe that was checked against its calibration, and how far through it execution is.
-/

namespace Winding

/-- What execution is doing. -/
inductive ExecutorState where
  | idle | ready | emitting | blocked | done | faulted | stopping
deriving DecidableEq, Repr, Inhabited

namespace ExecutorState

/-- Whether primitives of the recipe may still be on their way. -/
def isRunning : ExecutorState → Bool
  | .emitting | .blocked | .stopping => true
  | _ => false

/-- The name of a state. -/
def text : ExecutorState → String
  | .idle => "idle"
  | .ready => "ready"
  | .emitting => "emitting"
  | .blocked => "blocked"
  | .done => "done"
  | .faulted => "faulted"
  | .stopping => "stopping"

/-- The name of a state with a capital. -/
def title (s : ExecutorState) : String := s.text.capitalize

end ExecutorState

/-- Why no line is planned for now. -/
inductive BlockReason where
  | queueFull | controllerNotReady | stopping
deriving DecidableEq, Repr

/-- What one step of execution came to. -/
inductive StepOutcome where
  /-- One line was planned and is in the queue. -/
  | advanced
  | blocked (reason : BlockReason)
  /-- The line asks for a pause; execution is stopping. -/
  | pause
  | finished
deriving DecidableEq, Repr

/-- A transition that a state may refuse. -/
inductive Transition where
  | step | clearFault | arm
deriving DecidableEq, Repr

/-- The transition in words. -/
def Transition.text : Transition → String
  | .step => "step"
  | .clearFault => "clear fault"
  | .arm => "arm"

/-- Why execution refuses or fails. -/
inductive ExecutorError (R : Type) where
  | recipe (error : RecipeError R)
  | unknownLayer (layer : String)
  | lineOutOfRange (line count : Nat)
  | plan (error : PlanError R)
  | queueFull (error : QueueFull)
  | lineTooLong (line needed capacity : Nat)
  | faulted
  | busy (state : ExecutorState)
  | invalidTransition (state : ExecutorState) (transition : Transition)
deriving Repr

/-- The error in words. -/
def ExecutorError.message {R : Type} [Scalar R] : ExecutorError R → String
  | .recipe e => "Recipe error: " ++ e.message
  | .unknownLayer layer => "No geometry configured for layer '" ++ layer ++ "'"
  | .lineOutOfRange line count =>
    "Line " ++ toString line ++ " is outside the recipe (" ++ toString count ++ " lines)"
  | .plan e => e.message
  | .queueFull e => e.message
  | .lineTooLong line needed capacity =>
    "Line " ++ toString line ++ " needs " ++ toString needed ++ " queue slots, queue holds " ++
      toString capacity
  | .faulted => "Handler is faulted"
  | .busy state => "Handler is busy (" ++ state.text ++ ")"
  | .invalidTransition state transition =>
    "Cannot " ++ transition.text ++ " while " ++ state.text

instance {R : Type} [Scalar R] : Reported (ExecutorError R) where
  code
    | .recipe e => "Recipe." ++ Reported.code e
    | .unknownLayer _ => "UnknownLayer"
    | .lineOutOfRange _ _ => "LineOutOfRange"
    | .plan e => Reported.code e
    | .queueFull e => Reported.code e
    | .lineTooLong _ _ _ => "LineTooLong"
    | .faulted => "Faulted"
    | .busy _ => "Busy"
    | .invalidTransition _ _ => "InvalidTransition"
  message := ExecutorError.message

/-- A loaded recipe, and the next line to plan. -/
structure Session (R : Type) where
  path : Option String
  layer : String
  hash : String
  lines : List (Gcode.Line R)
  /-- Index of the next line to plan. -/
  cursor : Nat
  start : Nat
  table : PinTable R
deriving Repr

/-- A line whose primitives were queued and may not all have run. -/
structure InFlight (R : Type) where
  index : Nat
  wire : R
  /-- The planned pose before the line. -/
  before : Pose R
deriving Repr

end Winding

import Winding.Geometry.Location

/-!
# Tags and states of the controller

The controller is a table of tags. Writing a state's code to the tag `MOVE_TYPE` asks for the motion
of that state, with the parameters that other tags hold.
-/

namespace Winding

namespace Tag

/-- The state of the controller. -/
def state : String := "STATE"
/-- The code of the controller's error. -/
def errorCode : String := "ERROR_CODE"
/-- Switches of the machine. -/
def switches : String := "MACHINE_SW_STAT"
/-- Whether the controller takes a request. -/
def ready : String := "READY"
/-- Asks for a motion when it is written. -/
def moveType : String := "MOVE_TYPE"
/-- The velocity of a move. -/
def speed : String := "XY_SPEED"
/-- The acceleration of a move. -/
def acceleration : String := "XY_ACCELERATION"
/-- The deceleration of a move. -/
def deceleration : String := "XY_DECELERATION"
/-- The side to which the latch goes. -/
def latchSide : String := "LATCH_SIDE"
/-- The side to which the head goes. -/
def headSide : String := "HEAD_SIDE"

/-- Where an axis shall go. -/
def target (a : Axis) : String := a.letter ++ "_POSITION"
/-- Where an axis is. -/
def position (a : Axis) : String := a.letter ++ "_axis.ActualPosition"
/-- How fast an axis is. -/
def velocity (a : Axis) : String := a.letter ++ "_axis.ActualVelocity"
/-- How fast an axis shall get faster. -/
def command (a : Axis) : String := a.letter ++ "_axis.CommandAcceleration"
/-- Whether the module of an axis is at fault. -/
def moduleFault (a : Axis) : String := a.letter ++ "_axis.ModuleFault"

/-- The targets of all axes and the limits of a move. -/
def moveParameters : List String := Axis.all.map target ++ [speed, acceleration, deceleration]

end Tag

/-- A state of the controller; also the motion that a request asks for. -/
inductive ControllerState where
  | init | ready | xySeek | zSeek | latching | head | error
  | other (code : Int)
deriving DecidableEq, Repr, Inhabited

namespace ControllerState

/-- The code of a state. -/
def code : ControllerState → Int
  | .init => 0
  | .ready => 1
  | .xySeek => 2
  | .zSeek => 3
  | .latching => 4
  | .head => 5
  | .error => 10
  | .other code => code

/-- The state with a code. -/
def ofCode : Int → ControllerState
  | 0 => .init
  | 1 => .ready
  | 2 => .xySeek
  | 3 => .zSeek
  | 4 => .latching
  | 5 => .head
  | 10 => .error
  | code => .other code

/-- The name of a state in messages. -/
def text : ControllerState → String
  | .init => "Init"
  | .ready => "Ready"
  | .xySeek => "XySeek"
  | .zSeek => "ZSeek"
  | .latching => "Latching"
  | .head => "Head"
  | .error => "Error"
  | .other code => "Other(" ++ toString code ++ ")"

end ControllerState

end Winding

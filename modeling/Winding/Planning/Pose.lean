import Winding.Calibration.Table
import Winding.Geometry.Envelope
import Winding.Motion.Primitive
import Winding.Text.Reported

/-!
# The planned pose of the machine

Planning keeps track of where the machine will be once everything planned so far has run. Travel is
checked against the envelope (`Pose.travel`), and a head move through the frame against the transfer
area (`Pose.headChange`).
-/

namespace Winding

/-- Why motion cannot be planned. -/
inductive PlanError (R : Type) where
  | noRecipe
  | calibration (error : CalibrationError)
  | outOfBounds (target : Location R)
  | seek (error : SeekError)
  | notInTransferArea (position : Location R)
  | invalidLimits (velocity : R)
deriving Repr

/-- The error in words. -/
def PlanError.message {R : Type} [Scalar R] : PlanError R → String
  | .noRecipe => "No recipe loaded"
  | .calibration e => "Calibration error: " ++ e.message
  | .outOfBounds target => "Target " ++ target.text ++ " is outside the machine envelope"
  | .seek e => "Seek failed: " ++ e.message
  | .notInTransferArea position =>
    "Head can only cross the frame inside the transfer area (at " ++ position.text ++ ")"
  | .invalidLimits velocity =>
    "Motion limits must be positive (velocity " ++ Scalar.text velocity ++ ")"

instance {R : Type} [Scalar R] : Reported (PlanError R) where
  code
    | .noRecipe => "NoRecipe"
    | .calibration e => "Calibration." ++ Reported.code e
    | .outOfBounds _ => "OutOfBounds"
    | .seek e => "Seek." ++ Reported.code e
    | .notInTransferArea _ => "NotInTransferArea"
    | .invalidLimits _ => "InvalidLimits"
  message := PlanError.message

/-- Where the machine will be once all planned motion has run. -/
structure Pose (R : Type) where
  position : Location R
  latch : Side
  head : Side
  activePin : Option Pin
  limits : Limits R
  /-- The direction of the last travel, which seeks continue. -/
  direction : Option (R × R)
deriving BEq, Repr

namespace Pose

variable {R : Type} [Scalar R]

/-- The pose of a machine that has not moved. -/
def initial (limits : Limits R) : Pose R := ⟨.origin, .front, .front, none, limits, none⟩

/-- The pose after travel to a point of the envelope. The direction is that of the travel, unless it
is too short to have one. -/
def travel (env : Envelope R) (pose : Pose R) (target : Location R) :
    Except (PlanError R) (Pose R) :=
  if !env.bounds.contains target then .error (.outOfBounds target)
  else
    let dx := target.x - pose.position.x
    let dy := target.y - pose.position.y
    let direction :=
      if Scalar.lt Scalar.epsilon (Scalar.hypot dx dy) then some (dx, dy) else pose.direction
    .ok { pose with position := target, direction := direction }

/-- The depth of the head at a side, and the wire that the way there takes. A head that goes through
the frame pulls wire and must start inside the transfer area. -/
def headChange (env : Envelope R) (pose : Pose R) (side : Side) : Except (PlanError R) (R × R) :=
  let z := env.head.z side
  if !side.crosses pose.head then .ok (z, Scalar.zero)
  else if !env.transfer.inArea pose.position then .error (.notInTransferArea pose.position)
  else .ok (z, Scalar.abs (z - env.head.z pose.head))

/-- The pose with the head at a side, at a depth. -/
def withHead (pose : Pose R) (side : Side) (z : R) : Pose R :=
  { pose with head := side, position := { pose.position with z := z } }

/-- The pose after a primitive has run. A seek or a move turns the direction like travel does; the
pins and limits of the pose are kept. -/
def after (pose : Pose R) : Primitive R → Pose R
  | .move target _ | .seek _ target _ =>
    let dx := target.x - pose.position.x
    let dy := target.y - pose.position.y
    let direction :=
      if Scalar.lt Scalar.epsilon (Scalar.hypot dx dy) then some (dx, dy) else pose.direction
    { pose with position := target, direction := direction }
  | .latch side => { pose with latch := side }
  | .head side z => pose.withHead side z
  | .dwell _ | .pause => pose

end Pose

end Winding

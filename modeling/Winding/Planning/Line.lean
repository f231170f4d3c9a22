import Winding.Gcode.Command
import Winding.Motion.Rates
import Winding.Planning.Pose

/-!
# Planning one line

A line becomes a list of primitives, planned on a pose of its own (`planLine`). Targets gather until
something needs the machine to be there: a seek, a head move, a latch, a delay, a pause or the end
of the line. A seek waits in the same way, so that a clip can still shorten it.
-/

namespace Winding

/-- What a line makes of a pose. -/
structure LinePlan (R : Type) where
  primitives : List (Primitive R)
  /-- The pose after the line. -/
  pose : Pose R
  /-- Wire that the line takes. -/
  wire : R
  /-- Whether the line asks the operator to continue. -/
  pauses : Bool
deriving Repr

/-- What motion is planned with. -/
structure PlanContext (R : Type) where
  envelope : Envelope R
  rates : Rates R
deriving Repr

namespace Planning

/-- A line while it is planned: the plan so far, and what waits to be travelled. -/
structure Outline (R : Type) where
  plan : LinePlan R
  limits : Limits R
  target : Option (Location R)
  seek : Option (TransferEdge × Location R)
deriving Repr

namespace Outline

variable {R : Type} [Scalar R]

/-- The outline with a primitive at its end. -/
def emit (o : Outline R) (p : Primitive R) : Outline R :=
  { o with plan := { o.plan with primitives := o.plan.primitives ++ [p] } }

/-- The outline with travel to a point, carried out by a primitive. -/
def travel (env : Envelope R) (o : Outline R) (target : Location R) (p : Primitive R) :
    Except (PlanError R) (Outline R) := do
  let pose ← o.plan.pose.travel env target
  let wire := o.plan.wire + o.plan.pose.position.distanceXY target
  return { o with plan := { o.plan with pose := pose, wire := wire } }.emit p

/-- Travels the seek that waits. -/
def flushSeek (env : Envelope R) (o : Outline R) : Except (PlanError R) (Outline R) :=
  match o.seek with
  | none => .ok o
  | some (edge, target) =>
    { o with seek := none }.travel env target (.seek edge target o.limits)

/-- Travels all that waits: the seek, then the target unless the machine is there already. -/
def flush (env : Envelope R) (o : Outline R) : Except (PlanError R) (Outline R) := do
  let o ← o.flushSeek env
  match o.target with
  | none => return o
  | some target =>
    let o := { o with target := none }
    if target.approx o.plan.pose.position then return o
    else o.travel env target (.move target o.limits)

/-- The point that the next axis word changes. -/
def base (o : Outline R) : Location R := o.target.getD o.plan.pose.position

/-- The outline with some axes of its target set. -/
def aim (o : Outline R) (t : Gcode.Target R) : Outline R :=
  if t.isEmpty then o
  else { o with
    target := some ⟨t.x.getD o.base.x, t.y.getD o.base.y, t.z.getD o.base.z⟩ }

/-- The outline with the pose changed. -/
def withPose (o : Outline R) (pose : Pose R) : Outline R :=
  { o with plan := { o.plan with pose := pose } }

/-- The location that a front pin, a back pin or both name. -/
def pinLocation? (table : PinTable R) : Option Nat → Option Nat →
    Except CalibrationError (Option (Location R × Pin))
  | some f, some b => do
    let front ← table.resolve (.front f)
    let back ← table.resolve (.back b)
    return some (front.midpoint back, .front f)
  | some f, none => do return some (← table.resolve (.front f), .front f)
  | none, some b => do return some (← table.resolve (.back b), .back b)
  | none, none => .ok none

/-- The outline with a pin as its target. -/
def aimAtPin (table : Option (PinTable R)) (o : Outline R) (front back : Option Nat) (dx dy : R) :
    Except (PlanError R) (Outline R) :=
  match table with
  | none => .error .noRecipe
  | some table =>
    match pinLocation? table front back with
    | .error e => .error (.calibration e)
    | .ok none => .ok o
    | .ok (some (location, pin)) =>
      let pose := { o.plan.pose with activePin := some pin }
      .ok { o.withPose pose with target := some (location.offsetXY dx dy) }

/-- The outline with what waits moved into the transfer box. -/
def clip (box : TransferBox R) (o : Outline R) : Outline R :=
  match o.seek with
  | some (edge, target) => { o with seek := some (edge, box.clip target) }
  | none => { o with target := some (box.clip o.base) }

/-- The outline with a seek along the last direction of travel. -/
def startSeek (env : Envelope R) (o : Outline R) (edge : TransferEdge) :
    Except (PlanError R) (Outline R) :=
  match o.plan.pose.direction with
  | none => .error (.seek .noDirection)
  | some (dx, dy) =>
    match env.transfer.intercept o.plan.pose.position dx dy edge with
    | .error e => .error (.seek e)
    | .ok target => .ok { o with seek := some (edge, target) }

/-- The outline with a head move. -/
def moveHead (env : Envelope R) (o : Outline R) (side : Side) :
    Except (PlanError R) (Outline R) := do
  let (z, wire) ← o.plan.pose.headChange env side
  let o := o.withPose (o.plan.pose.withHead side z)
  return { o with plan := { o.plan with wire := o.plan.wire + wire } }.emit (.head side z)

/-- The outline with one more command. -/
def apply (env : Envelope R) (table : Option (PinTable R)) (o : Outline R) :
    Gcode.Command R → Except (PlanError R) (Outline R)
  | .move target _ => do return (← o.flushSeek env).aim target
  | .pin front back dx dy => do (← o.flushSeek env).aimAtPin table front back dx dy
  | .clip => .ok (o.clip env.transfer)
  | .seek edge => do (← o.flush env).startSeek env edge
  | .head side => do (← o.flush env).moveHead env side
  | .latch side => do
    let o ← o.flush env
    return (o.withPose { o.plan.pose with latch := side }).emit (.latch side)
  | .delay ms => do return (← o.flush env).emit (.dwell ms)
  | .pause => do
    let o ← o.flush env
    return { o with plan := { o.plan with pauses := true } }.emit .pause

end Outline

end Planning

/-- Plans a line from a pose. The pose is given back changed only by a plan for the whole line. -/
def planLine {R : Type} [Scalar R] (context : PlanContext R) (table : Option (PinTable R))
    (pose : Pose R) (line : Gcode.Line R) : Except (PlanError R) (LinePlan R) := do
  let limits := context.rates.limits line.feed
  if !limits.isValid then .error (.invalidLimits limits.velocity)
  else
    let start : Planning.Outline R :=
      ⟨⟨[], { pose with limits := limits }, Scalar.zero, false⟩, limits, none, none⟩
    let o ← line.commands.foldlM (Planning.Outline.apply context.envelope table) start
    return (← o.flush context.envelope).plan

end Winding

import Winding.Geometry.Side
import Winding.Geometry.Transfer

/-!
# Motion primitives

A primitive is one request that the controller carries out on its own.
-/

namespace Winding

/-- Velocity, acceleration and deceleration of one move. -/
structure Limits (R : Type) where
  velocity : R
  acceleration : R
  deceleration : R
deriving BEq, Repr, Inhabited

/-- Whether all three limits are finite and above zero. -/
def Limits.isValid {R : Type} [Scalar R] (l : Limits R) : Bool :=
  [l.velocity, l.acceleration, l.deceleration].all fun v => Scalar.isFinite v && Scalar.positive v

/-- One request to the controller. A seek carries its precomputed end. -/
inductive Primitive (R : Type) where
  | move (target : Location R) (limits : Limits R)
  | seek (edge : TransferEdge) (target : Location R) (limits : Limits R)
  | latch (side : Side)
  | head (side : Side) (z : R)
  | dwell (ms : Nat)
  | pause
deriving BEq, Repr, Inhabited

namespace Primitive

variable {R : Type} [Scalar R]

/-- The primitive in words. -/
def text : Primitive R → String
  | .move target limits => "move to " ++ target.text ++ " at " ++ Scalar.text limits.velocity
  | .seek edge target limits =>
    "seek " ++ edge.text ++ " edge to " ++ target.text ++ " at " ++ Scalar.text limits.velocity
  | .latch side => "latch " ++ side.text
  | .head side z => "head " ++ side.text ++ " (z " ++ Scalar.fixed 3 z ++ ")"
  | .dwell ms => "dwell " ++ toString ms ++ " ms"
  | .pause => "break"

end Primitive

end Winding

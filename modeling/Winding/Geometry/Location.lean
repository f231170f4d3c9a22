import Winding.Number.Scalar

/-!
# Points and axes

A point in machine coordinates, in millimetres, over any number system.
-/

namespace Winding

/-- The three axes of the machine. -/
inductive Axis where
  | x | y | z
deriving DecidableEq, Repr, Inhabited

namespace Axis

/-- All axes in their fixed order. -/
def all : List Axis := [.x, .y, .z]

/-- The capital letter of an axis. -/
def letter : Axis → String
  | .x => "X"
  | .y => "Y"
  | .z => "Z"

end Axis

/-- A point in machine coordinates. -/
structure Location (R : Type) where
  x : R
  y : R
  z : R
deriving BEq, Repr, Inhabited

namespace Location

variable {R : Type} [Scalar R]

/-- The origin. -/
def origin : Location R := ⟨Scalar.zero, Scalar.zero, Scalar.zero⟩

/-- The coordinate on an axis. -/
def on (p : Location R) : Axis → R
  | .x => p.x
  | .y => p.y
  | .z => p.z

/-- Whether all three coordinates are finite. -/
def isFinite (p : Location R) : Bool :=
  Scalar.isFinite p.x && Scalar.isFinite p.y && Scalar.isFinite p.z

/-- The distance seen along the z axis. -/
def distanceXY (p q : Location R) : R := Scalar.hypot (q.x - p.x) (q.y - p.y)

/-- The point half-way between two points. -/
def midpoint (p q : Location R) : Location R :=
  let half (a b : R) : R := (a + b) / Scalar.ofNat 2
  ⟨half p.x q.x, half p.y q.y, half p.z q.z⟩

/-- The point moved by `dx` and `dy`. -/
def offsetXY (p : Location R) (dx dy : R) : Location R := ⟨p.x + dx, p.y + dy, p.z⟩

/-- Positions closer than this on every axis count as one. -/
def tolerance : R := Scalar.ofPlaces 1 3

/-- Whether two coordinates differ by less than the tolerance. -/
def near (a b : R) : Bool := Scalar.lt (Scalar.abs (a - b)) tolerance

/-- Whether two points are within the tolerance on every axis. -/
def approx (p q : Location R) : Bool := near p.x q.x && near p.y q.y && near p.z q.z

/-- The point with three decimals on each axis. -/
def text (p : Location R) : String :=
  "(" ++ Scalar.fixed 3 p.x ++ ", " ++ Scalar.fixed 3 p.y ++ ", " ++ Scalar.fixed 3 p.z ++ ")"

end Location

end Winding

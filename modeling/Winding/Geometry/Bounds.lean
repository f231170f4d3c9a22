import Winding.Geometry.Fault
import Winding.Geometry.Side

/-!
# The reachable envelope and the head's depths
-/

namespace Winding

/-- The reachable range of each axis. -/
structure Bounds (R : Type) where
  xMin : R
  xMax : R
  yMin : R
  yMax : R
  zMin : R
  zMax : R
deriving BEq, Repr

/-- The depth of the pulling head at each side. -/
structure HeadDepths (R : Type) where
  front : R
  partialFront : R
  partialBack : R
  back : R
deriving BEq, Repr

variable {R : Type} [Scalar R]

namespace Bounds

/-- The least and the greatest coordinate on an axis. -/
def range (b : Bounds R) : Axis → R × R
  | .x => (b.xMin, b.xMax)
  | .y => (b.yMin, b.yMax)
  | .z => (b.zMin, b.zMax)

/-- Whether the range of an axis is finite and not empty. -/
def sound (b : Bounds R) (axis : Axis) : Bool :=
  let (low, high) := b.range axis
  Scalar.isFinite low && Scalar.isFinite high && !Scalar.le high low

/-- Accepts bounds whose ranges are finite and not empty; else names the first other axis. -/
def validate (b : Bounds R) : Except (GeometryError R) Unit :=
  match Axis.all.find? (!b.sound ·) with
  | some axis => .error (.invalidBounds axis (b.range axis).1 (b.range axis).2)
  | none => .ok ()

/-- Whether a point is finite and within the range of every axis. -/
def contains (b : Bounds R) (p : Location R) : Bool :=
  p.isFinite && Axis.all.all fun axis =>
    Scalar.between (b.range axis).1 (b.range axis).2 (p.on axis)

/-- The machine as built. -/
def standard : Bounds R :=
  ⟨Scalar.zero, Scalar.ofNat 7360, Scalar.zero, Scalar.ofNat 2850, Scalar.zero, Scalar.ofNat 434⟩

end Bounds

namespace HeadDepths

/-- The depth at a side. -/
def z (h : HeadDepths R) : Side → R
  | .front => h.front
  | .partialFront => h.partialFront
  | .partialBack => h.partialBack
  | .back => h.back

/-- The machine as built. -/
def standard : HeadDepths R :=
  ⟨Scalar.zero, Scalar.ofNat 100, Scalar.ofNat 334, Scalar.ofNat 434⟩

end HeadDepths

end Winding

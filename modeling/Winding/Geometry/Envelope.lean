import Winding.Geometry.Bounds
import Winding.Geometry.Transfer

/-!
# The machine's physical layout

An envelope is bounds, a transfer box and head depths that were checked together.
-/

namespace Winding

/-- What planning needs to know about the machine. -/
structure Envelope (R : Type) where
  bounds : Bounds R
  transfer : TransferBox R
  head : HeadDepths R
deriving Repr

namespace Envelope

variable {R : Type} [Scalar R]

/-- The envelope with valid bounds and a valid transfer box; the bounds are checked first. -/
def make (bounds : Bounds R) (transfer : TransferBox R) (head : HeadDepths R) :
    Except (GeometryError R) (Envelope R) := do
  bounds.validate
  transfer.validate
  return ⟨bounds, transfer, head⟩

end Envelope

end Winding

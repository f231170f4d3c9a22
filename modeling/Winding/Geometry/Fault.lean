import Winding.Geometry.Location
import Winding.Text.Reported

/-!
# What can be wrong with a geometry
-/

namespace Winding

/-- Why an operation ends without a result: an error that is reported, or a fixed-width count that
leaves its range. -/
inductive Abort (ε : Type) where
  | error (e : ε)
  | overflow
deriving Repr

namespace Abort

/-- The same end with the reported error changed. -/
def map {ε ε' : Type} (f : ε → ε') : Abort ε → Abort ε'
  | .error e => .error (f e)
  | .overflow => .overflow

end Abort

/-- What is wrong with a layer's pin layout. -/
inductive LayerFault (R : Type) where
  | noPins
  | pitchX (value : R)
  | pitchY (value : R)
deriving Repr

/-- What is wrong with a transfer box. -/
inductive BoxFault (R : Type) where
  | notFinite
  | leftNotBelowRight (left right : R)
  | bottomNotBelowTop (bottom top : R)
  | negativeWindow
deriving Repr

/-- An unusable geometry. -/
inductive GeometryError (R : Type) where
  | invalidLayer (layer : String) (fault : LayerFault R)
  | invalidTransferBox (fault : BoxFault R)
  | invalidBounds (axis : Axis) (low high : R)
  | unknownSide (text : String)
deriving Repr

variable {R : Type} [Scalar R]

/-- The reason in words. -/
def LayerFault.message : LayerFault R → String
  | .noPins => "layer has no pins"
  | .pitchX v => "delta_x must be positive, got " ++ Scalar.text v
  | .pitchY v => "delta_y must be positive, got " ++ Scalar.text v

/-- The reason in words. -/
def BoxFault.message : BoxFault R → String
  | .notFinite => "non-finite value"
  | .leftNotBelowRight l r =>
    "left " ++ Scalar.text l ++ " must be less than right " ++ Scalar.text r
  | .bottomNotBelowTop b t =>
    "bottom " ++ Scalar.text b ++ " must be less than top " ++ Scalar.text t
  | .negativeWindow => "negative window"

/-- The error in words. -/
def GeometryError.message : GeometryError R → String
  | .invalidLayer layer fault =>
    "Invalid layer geometry for '" ++ layer ++ "': " ++ fault.message
  | .invalidTransferBox fault => "Invalid transfer box: " ++ fault.message
  | .invalidBounds axis low high =>
    "Invalid machine bounds: " ++ axis.letter.toLower ++ " range [" ++ Scalar.text low ++ ", " ++
      Scalar.text high ++ "] is empty or not finite"
  | .unknownSide text => "Unknown side '" ++ text ++ "'"

instance : Reported (GeometryError R) where
  code
    | .invalidLayer _ _ => "InvalidLayer"
    | .invalidTransferBox _ => "InvalidTransferBox"
    | .invalidBounds _ _ _ => "InvalidBounds"
    | .unknownSide _ => "UnknownSide"
  message := GeometryError.message

end Winding

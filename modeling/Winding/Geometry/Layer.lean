import Winding.Geometry.Fault

/-!
# Layers of wire and their pins

A layer has `rows` pins along each vertical edge of the frame and `columns` along each horizontal
one, on both faces. Ordinals start at one corner and walk the four edges in one direction
(`Numbering.edges`, `Layer.edgeOf`).
-/

namespace Winding

/-- The corner at which ordinal 1 sits. -/
inductive Corner where
  | bottomLeft | bottomRight | topLeft | topRight
deriving DecidableEq, Repr, Inhabited

/-- The direction in which ordinals increase around the frame, seen from the front. -/
inductive Wrap where
  | clockwise | counterClockwise
deriving DecidableEq, Repr, Inhabited

/-- An edge of the frame. -/
inductive FrameEdge where
  | bottom | right | top | left
deriving DecidableEq, Repr, Inhabited

/-- Whether pins along the edge are counted as rows. -/
def FrameEdge.isVertical : FrameEdge → Bool
  | .left | .right => true
  | .bottom | .top => false

/-- Where ordinals start, and which way they walk. -/
structure Numbering where
  start : Corner
  wrap : Wrap
deriving DecidableEq, Repr, Inhabited

/-- The edges in the order in which ordinals walk them. -/
def Numbering.edges : Numbering → List FrameEdge
  | ⟨.bottomLeft, .clockwise⟩ => [.left, .top, .right, .bottom]
  | ⟨.topLeft, .clockwise⟩ => [.top, .right, .bottom, .left]
  | ⟨.topRight, .clockwise⟩ => [.right, .bottom, .left, .top]
  | ⟨.bottomRight, .clockwise⟩ => [.bottom, .left, .top, .right]
  | ⟨.bottomLeft, .counterClockwise⟩ => [.bottom, .right, .top, .left]
  | ⟨.bottomRight, .counterClockwise⟩ => [.right, .top, .left, .bottom]
  | ⟨.topRight, .counterClockwise⟩ => [.top, .left, .bottom, .right]
  | ⟨.topLeft, .counterClockwise⟩ => [.left, .bottom, .right, .top]

/-- The wires and pins of one layer. Straight layers have no horizontal pitch; on diagonal ones the
spacing of the wires follows from both pitches. -/
structure Layer (R : Type) where
  name : String
  /-- Pins on each face; ordinals run from 1 to this. -/
  pinCount : Nat
  rows : Nat
  columns : Nat
  pitchX : Option R
  pitchY : R
  /-- The angle of the wire to the horizontal. -/
  angle : R
  /-- The distance between neighbouring wires. -/
  spacing : R
  numbering : Numbering
deriving Repr

namespace Layer

/-- Pin counts are kept in 32 bits. -/
def countLimit : Nat := UInt32.size

section Make

variable {R : Type} [Scalar R]

/-- Whether a pitch is finite and above zero. -/
def pitchOk (v : R) : Bool := Scalar.isFinite v && Scalar.positive v

/-- The angle of the wire and the distance between wires. -/
def slope (pitchX : Option R) (pitchY : R) : R × R :=
  match pitchX with
  | none => (Scalar.zero, pitchY)
  | some dx =>
    let ratio := pitchY / dx
    (Scalar.atan ratio, pitchY / Scalar.sqrt (ratio * ratio + Scalar.ofNat 1))

/-- The layer with these counts and pitches. The pin counts must fit their 32 bits. -/
def make (name : String) (rows columns : Nat) (pitchX : Option R) (pitchY : R)
    (numbering : Numbering) : Except (Abort (GeometryError R)) (Layer R) :=
  let invalid (fault : LayerFault R) : Except (Abort (GeometryError R)) (Layer R) :=
    .error (.error (.invalidLayer name fault))
  if countLimit ≤ rows + columns then .error .overflow
  else if rows + columns = 0 then invalid .noPins
  else if !pitchOk pitchY then invalid (.pitchY pitchY)
  else match pitchX.filter (!pitchOk ·) with
    | some dx => invalid (.pitchX dx)
    | none =>
      if countLimit ≤ 2 * (rows + columns) then .error .overflow
      else
        let (angle, spacing) := slope pitchX pitchY
        .ok ⟨name, 2 * (rows + columns), rows, columns, pitchX, pitchY, angle, spacing, numbering⟩

end Make

variable {R : Type}

/-- Pins along an edge. -/
def pinsAlong (layer : Layer R) (edge : FrameEdge) : Nat :=
  if edge.isVertical then layer.rows else layer.columns

/-- The edge on which the `remaining`-th pin of a walk along `edges` sits. -/
def edgeAt (layer : Layer R) : List FrameEdge → Nat → Option FrameEdge
  | [], _ => none
  | edge :: edges, remaining =>
    if remaining ≤ layer.pinsAlong edge then some edge
    else layer.edgeAt edges (remaining - layer.pinsAlong edge)

/-- The edge that carries the pin with this ordinal, if there is such a pin. -/
def edgeOf (layer : Layer R) (ordinal : Nat) : Option FrameEdge :=
  if ordinal = 0 ∨ layer.pinCount < ordinal then none
  else layer.edgeAt layer.numbering.edges ordinal

end Layer

end Winding

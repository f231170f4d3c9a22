import Winding.Geometry.Fault
import Winding.Text.Reported

/-!
# The transfer box

Four lines near the edges of the frame, along which the wire can be handed between the faces. A
seek travels in a given direction until it meets a chosen line, or the nearer of two lines at a
corner (`TransferBox.intercept`).
-/

namespace Winding

/-- One line of the transfer box. -/
inductive BoxLine where
  | top | bottom | left | right
deriving DecidableEq, Repr, Inhabited

/-- What a seek travels to: one line, or the two lines of a corner. -/
inductive TransferEdge where
  | top | bottom | left | right | topLeft | topRight | bottomLeft | bottomRight
deriving DecidableEq, Repr, Inhabited

namespace BoxLine

/-- The bit that stands for a line. -/
def mask : BoxLine → Nat
  | .top => 1
  | .bottom => 2
  | .left => 4
  | .right => 8

end BoxLine

namespace TransferEdge

/-- All edges, single lines first. -/
def all : List TransferEdge :=
  [.top, .bottom, .left, .right, .topLeft, .topRight, .bottomLeft, .bottomRight]

/-- The lines of an edge. -/
def lines : TransferEdge → List BoxLine
  | .top => [.top]
  | .bottom => [.bottom]
  | .left => [.left]
  | .right => [.right]
  | .topLeft => [.top, .left]
  | .topRight => [.top, .right]
  | .bottomLeft => [.bottom, .left]
  | .bottomRight => [.bottom, .right]

/-- The bits of an edge's lines. -/
def mask (e : TransferEdge) : Nat := (e.lines.map BoxLine.mask).foldl (· + ·) 0

/-- The edge with these bits. -/
def ofMask? (mask : Int) : Option TransferEdge := all.find? fun e => (e.mask : Int) == mask

theorem ofMask?_mask (e : TransferEdge) : ofMask? e.mask = some e := by cases e <;> rfl

/-- The name of an edge. -/
def text : TransferEdge → String
  | .top => "top"
  | .bottom => "bottom"
  | .left => "left"
  | .right => "right"
  | .topLeft => "top-left"
  | .topRight => "top-right"
  | .bottomLeft => "bottom-left"
  | .bottomRight => "bottom-right"

end TransferEdge

/-- Why a seek has no end. -/
inductive SeekError where
  | noDirection
  | noIntercept (edge : TransferEdge)
deriving DecidableEq, Repr

/-- The error in words. -/
def SeekError.message : SeekError → String
  | .noDirection => "Seek requested with no direction of travel"
  | .noIntercept edge => "Direction never reaches the " ++ edge.text ++ " transfer edge"

instance : Reported SeekError where
  code
    | .noDirection => "NoDirection"
    | .noIntercept _ => "NoIntercept"
  message := SeekError.message

/-- The positions of the four lines, and the width of the band around each that counts as transfer
area. -/
structure TransferBox (R : Type) where
  top : R
  bottom : R
  left : R
  right : R
  window : R
deriving BEq, Repr

namespace TransferBox

variable {R : Type} [Scalar R]

/-- Accepts a box of finite, ordered lines with a window that is not negative. -/
def validate (b : TransferBox R) : Except (GeometryError R) Unit :=
  if [b.top, b.bottom, b.left, b.right, b.window].any (!Scalar.isFinite ·) then
    .error (.invalidTransferBox .notFinite)
  else if Scalar.le b.right b.left then
    .error (.invalidTransferBox (.leftNotBelowRight b.left b.right))
  else if Scalar.le b.top b.bottom then
    .error (.invalidTransferBox (.bottomNotBelowTop b.bottom b.top))
  else if Scalar.lt b.window Scalar.zero then .error (.invalidTransferBox .negativeWindow)
  else .ok ()

/-- The point moved into an ordered box; the depth is kept. -/
def clip (b : TransferBox R) (p : Location R) : Location R :=
  ⟨Scalar.clamp p.x b.left b.right, Scalar.clamp p.y b.bottom b.top, p.z⟩

/-- The point moved into the box, if the box is ordered. -/
def clip? (b : TransferBox R) (p : Location R) : Option (Location R) :=
  if Scalar.le b.left b.right && Scalar.le b.bottom b.top then some (b.clip p) else none

/-- Whether a coordinate is within the window of a line. -/
def nearLine (b : TransferBox R) (value line : R) : Bool :=
  Scalar.le (Scalar.abs (value - line)) b.window

/-- Whether a point is within the window of some line, inside or outside the box. -/
def inArea (b : TransferBox R) (p : Location R) : Bool :=
  b.nearLine p.y b.top || b.nearLine p.y b.bottom || b.nearLine p.x b.left || b.nearLine p.x b.right

/-- Travel from `p` along `(dx, dy)` to one line: how far in multiples of the direction, and the
point; `none` for travel along the line. -/
def crossing (b : TransferBox R) (p : Location R) (dx dy : R) : BoxLine → Option (R × Location R)
  | .top => across b.top
  | .bottom => across b.bottom
  | .left => along b.left
  | .right => along b.right
where
  across (value : R) : Option (R × Location R) :=
    if dy == Scalar.zero then none
    else
      let t := (value - p.y) / dy
      some (t, ⟨p.x + t * dx, value, p.z⟩)
  along (value : R) : Option (R × Location R) :=
    if dx == Scalar.zero then none
    else
      let t := (value - p.x) / dx
      some (t, ⟨value, p.y + t * dy, p.z⟩)

/-- Travel shorter than this multiple of the direction does not count. -/
def leastTravel : R := Scalar.ofPlaces 1 9

/-- The nearer of the best crossing so far and a new one ahead. -/
def nearer (best : Option (R × Location R)) (c : R × Location R) : Option (R × Location R) :=
  if Scalar.lt leastTravel c.1 && best.all (fun b => Scalar.lt c.1 b.1) then some c else best

/-- The first point of an edge that travel from `p` along `(dx, dy)` reaches. -/
def intercept (b : TransferBox R) (p : Location R) (dx dy : R) (edge : TransferEdge) :
    Except SeekError (Location R) :=
  if Scalar.lt (Scalar.abs dx) Scalar.epsilon && Scalar.lt (Scalar.abs dy) Scalar.epsilon then
    .error .noDirection
  else
    match (edge.lines.filterMap (b.crossing p dx dy)).foldl nearer none with
    | some (_, point) => .ok point
    | none => .error (.noIntercept edge)

/-- The machine as built. -/
def standard : TransferBox R :=
  ⟨Scalar.ofNat 2800, Scalar.ofNat 50, Scalar.ofNat 440, Scalar.ofNat 7174, Scalar.ofNat 10⟩

end TransferBox

end Winding

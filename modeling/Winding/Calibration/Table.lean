import Winding.Calibration.Pin
import Winding.Files.Store
import Winding.Geometry.Layer
import Winding.Markup.Reader
import Winding.Text.Reported

/-!
# Calibration tables

The measured location of every pin of a layer, in the order of the pins. The depth of a pin is that
of its face. A table is kept as a document; an `offset` element shifts all pins as they are read,
and locations are written as they are, without an offset. A valid table follows the layout of its
layer (`PinTable.validate`).
-/

namespace Winding

/-- What is wrong with calibration data. -/
inductive CalibrationError where
  | missing (layer path : String)
  | unknownPin (pin : Pin)
  | invalidPin (text : String)
  | duplicatePin (pin : Pin)
  | notFinite (pin : Pin)
  | layerMismatch (expected found : String)
  | outOfRange (pin : Pin) (layer : String) (pinCount : Nat)
  | notMonotonic (pin : Pin)
  | malformed
  | file (error : FileError)
deriving DecidableEq, Repr

/-- The error in words. -/
def CalibrationError.message : CalibrationError → String
  | .missing layer path => "Calibration for layer '" ++ layer ++ "' is missing (" ++ path ++ ")"
  | .unknownPin pin => "Unknown pin " ++ pin.text
  | .invalidPin text => "Invalid pin id '" ++ text ++ "'"
  | .duplicatePin pin => "Duplicate pin " ++ pin.text ++ " in calibration"
  | .notFinite pin => "Pin " ++ pin.text ++ " has a non-finite location"
  | .layerMismatch expected found =>
    "Calibration is for layer '" ++ found ++ "', expected '" ++ expected ++ "'"
  | .outOfRange pin layer pinCount =>
    "Pin " ++ pin.text ++ " is outside layer '" ++ layer ++ "' (" ++ toString pinCount ++
      " pins per face)"
  | .notMonotonic pin => "Pin " ++ pin.text ++ " breaks the monotonic Y order of its edge"
  | .malformed => "XML error: malformed calibration"
  | .file e => "File error: " ++ e.message

instance : Reported CalibrationError where
  code
    | .missing _ _ => "CalibrationMissing"
    | .unknownPin _ => "UnknownPin"
    | .invalidPin _ => "InvalidPinId"
    | .duplicatePin _ => "DuplicatePin"
    | .notFinite _ => "NonFinite"
    | .layerMismatch _ _ => "LayerMismatch"
    | .outOfRange _ _ _ => "OrdinalOutOfRange"
    | .notMonotonic _ => "NonMonotonic"
    | .malformed => "Xml"
    | .file e => "File." ++ Reported.code e
  message := CalibrationError.message

/-- The locations of a layer's pins. -/
structure PinTable (R : Type) where
  layer : String
  zFront : R
  zBack : R
  /-- The pins in their order, each once. -/
  pins : List (Pin × Location R)
deriving Repr

namespace PinTable

section Lookup

variable {R : Type}

/-- Whether a pin is calibrated. -/
def contains (t : PinTable R) (pin : Pin) : Bool := (t.pins.lookup pin).isSome

/-- The location of a pin. -/
def resolve (t : PinTable R) (pin : Pin) : Except CalibrationError (Location R) :=
  match t.pins.lookup pin with
  | some location => .ok location
  | none => .error (.unknownPin pin)

/-- The table with one more pin in its place; `none` if it is there already. -/
def insert? (pin : Pin) (location : Location R) :
    List (Pin × Location R) → Option (List (Pin × Location R))
  | [] => some [(pin, location)]
  | (q, l) :: rest =>
    if pin = q then none
    else if pin.before q then some ((pin, location) :: (q, l) :: rest)
    else (insert? pin location rest).map ((q, l) :: ·)

end Lookup

variable {R : Type} [Scalar R]

/-- The depth of the pins on a face. -/
def depth (zFront zBack : R) : Face → R
  | .front => zFront
  | .back => zBack

/-- Adds measured points to the pins so far. -/
def collect (zFront zBack : R) (pins : List (Pin × Location R)) :
    List (Pin × R × R) → Except CalibrationError (List (Pin × Location R))
  | [] => .ok pins
  | (pin, x, y) :: points =>
    let location : Location R := ⟨x, y, depth zFront zBack pin.face⟩
    if !location.isFinite then .error (.notFinite pin)
    else match insert? pin location pins with
      | none => .error (.duplicatePin pin)
      | some pins' => collect zFront zBack pins' points

/-- The table of measured points. -/
def make (layer : String) (zFront zBack : R) (points : List (Pin × R × R)) :
    Except CalibrationError (PinTable R) := do
  return ⟨layer, zFront, zBack, ← collect zFront zBack [] points⟩

/-! ## Documents -/

/-- The document of a table; locations are written as they are. -/
def document (t : PinTable R) : Markup.Document :=
  ⟨⟨"LayerCalibration", [("layer", t.layer), ("zFront", Scalar.text t.zFront),
      ("zBack", Scalar.text t.zBack)]⟩,
    t.pins.map fun (pin, location) =>
      ⟨"pin", [("id", pin.text), ("x", Scalar.text location.x), ("y", Scalar.text location.y)]⟩⟩

/-- The text of a table. -/
def text (t : PinTable R) : String := t.document.text

/-- A number in a required attribute. -/
def number? (tag : Markup.Tag) (key : String) : Option R := (tag.get? key).bind Scalar.ofText?

/-- The offset in a document: that of its only `offset` element, or none. -/
def offset? (children : List Markup.Tag) : Option (R × R) :=
  match children.filter (·.name == "offset") with
  | [] => some (Scalar.zero, Scalar.zero)
  | [tag] => do
    if tag.within ["x", "y"] then return (← number? tag "x", ← number? tag "y") else none
  | _ => none

/-- The pins in a document: identifiers and points. -/
def points? (children : List Markup.Tag) : Option (List (String × R × R)) :=
  (children.filter (·.name == "pin")).mapM fun tag => do
    if tag.within ["id", "x", "y"] then
      return (← tag.get? "id", ← number? tag "x", ← number? tag "y")
    else none

/-- The identifiers of points as pins, and the points moved by an offset. -/
def shifted (dx dy : R) (points : List (String × R × R)) :
    Except CalibrationError (List (Pin × R × R)) :=
  points.mapM fun (id, x, y) =>
    match Pin.ofText? id with
    | none => .error (.invalidPin id)
    | some pin => .ok (pin, x + dx, y + dy)

/-- The parts of a calibration document: layer, depths, offset and points. -/
def parts? (d : Markup.Document) :
    Option (String × R × R × (R × R) × List (String × R × R)) := do
  if d.root.within ["layer", "zFront", "zBack"] &&
      d.children.all (fun tag => tag.name == "offset" || tag.name == "pin") then
    return (← d.root.get? "layer", ← number? d.root "zFront", ← number? d.root "zBack",
      ← offset? d.children, ← points? d.children)
  else none

/-- The table of a document. -/
def ofDocument (d : Markup.Document) : Except CalibrationError (PinTable R) :=
  match parts? d with
  | none => .error .malformed
  | some (layer, zFront, zBack, (dx, dy), points) => do
    make layer zFront zBack (← shifted dx dy points)

/-- The table that a text writes. -/
def ofText (text : String) : Except CalibrationError (PinTable R) :=
  match Markup.Document.ofText? text with
  | none => .error .malformed
  | some d => ofDocument d

/-! ## Files -/

/-- The table in a file. -/
def load (files : FileStore) (path : String) : Except CalibrationError (PinTable R) :=
  match files.readText path with
  | .error e => .error (.file e)
  | .ok text => ofText text

/-- Writes a table to a file. -/
def save (t : PinTable R) (files : FileStore) (path : String) :
    FileStore × Except CalibrationError Unit :=
  match files.write path t.text.toUTF8 with
  | (files', .ok ()) => (files', .ok ())
  | (files', .error e) => (files', .error (.file e))

/-! ## Validation -/

/-- The way in which the rows of an edge have moved so far. -/
inductive Trend where
  | unknown | up | down
deriving DecidableEq, Repr

/-- The last pin seen on a vertical edge of a face: its ordinal, its height and the trend. -/
structure Seen (R : Type) where
  face : Face
  edge : FrameEdge
  ordinal : Nat
  y : R
  trend : Trend
deriving Repr

/-- The step between neighbouring rows, as a trend; `none` for no step. -/
def trendOf (step : R) : Option Trend :=
  if step == Scalar.zero then none else if Scalar.lt step Scalar.zero then some .down else some .up

/-- The pins seen, with the last one of an edge replaced. -/
def remember (s : Seen R) (seen : List (Seen R)) : List (Seen R) :=
  s :: seen.filter fun t => !(t.face = s.face ∧ t.edge = s.edge)

/-- Checks the pins after those seen: neighbouring ordinals of a vertical edge keep moving the same
way. -/
def checkPins (layer : Layer R) (seen : List (Seen R)) :
    List (Pin × Location R) → Except CalibrationError Unit
  | [] => .ok ()
  | (pin, location) :: pins =>
    match layer.edgeOf pin.ordinal with
    | none => .error (.outOfRange pin layer.name layer.pinCount)
    | some edge =>
      if !edge.isVertical then checkPins layer seen pins
      else
        let now (trend : Trend) : List (Seen R) :=
          remember ⟨pin.face, edge, pin.ordinal, location.y, trend⟩ seen
        match seen.find? (fun t => t.face = pin.face ∧ t.edge = edge) with
        | none => checkPins layer (now .unknown) pins
        | some last =>
          if last.ordinal + 1 = pin.ordinal then
            match trendOf (location.y - last.y) with
            | none => .error (.notMonotonic pin)
            | some trend =>
              if last.trend ≠ .unknown ∧ trend ≠ last.trend then .error (.notMonotonic pin)
              else checkPins layer (now trend) pins
          else checkPins layer (now last.trend) pins

/-- Accepts a table that is for the layer, has only its pins, and whose rows are in order. -/
def validate (t : PinTable R) (layer : Layer R) : Except CalibrationError Unit :=
  if t.layer ≠ layer.name then .error (.layerMismatch layer.name t.layer)
  else checkPins layer [] t.pins

end PinTable

end Winding

import Winding.Calibration.Library
import Winding.Files.DataDirectory
import Winding.Geometry.Envelope
import Winding.Motion.Rates
import Winding.Planning.Line
import Winding.Settings.Field
import Winding.Text.Reported

/-!
# Configuration

Every section is optional, and missing values have the defaults of the machine as built. A
configuration is usable once it is valid (`Configuration.validate`).
-/

namespace Winding

/-- Run-time settings of the machine. -/
structure MachineSettings where
  apaName : String
  dataDirectory : String
  periodMillis : Nat
  controllerTimeoutMillis : Nat
  queueCapacity : Nat
  persistInterval : Nat
  shutdownTimeoutMillis : Nat
  /-- The longest time that one primitive may take. -/
  moveTimeoutMillis : Nat
deriving Repr

/-- The pin layout of one layer. -/
structure LayerSettings (R : Type) where
  name : String
  rows : Nat
  columns : Nat
  pitchX : Option R
  pitchY : R
  numbering : Numbering
  /-- A calibration file in place of the usual one. -/
  calibration : Option String
deriving Repr

/-- The command channel. -/
structure ChannelSettings where
  address : String
  port : Nat
deriving Repr

/-- The controller. -/
structure ControllerSettings where
  simulated : Bool
  /-- Polls for which a simulated motion stays busy. -/
  completionPolls : Nat
deriving Repr

/-- All settings. -/
structure Configuration (R : Type) where
  machine : MachineSettings
  rates : Rates R
  bounds : Bounds R
  transfer : TransferBox R
  head : HeadDepths R
  /-- The layers in the order of their names. -/
  layers : List (LayerSettings R)
  channel : ChannelSettings
  controller : ControllerSettings
deriving Repr

/-- Why a configuration cannot be used. -/
inductive ConfigurationError (R : Type) where
  | unreadable (fault : IoFault)
  | malformed
  | geometry (error : GeometryError R)
  | emptyName
  | notPositive (key : String)
  | noneAllowed (key : String)
  | rates (fault : RatesFault R)
deriving Repr

namespace Configuration

variable {R : Type} [Scalar R]

/-! ## Defaults -/

/-- A layer without horizontal pitch. -/
def straightLayer (name : String) (rows : Nat) : LayerSettings R :=
  ⟨name, rows, 0, none, Scalar.ofPlaces 47916 4, ⟨.bottomLeft, .counterClockwise⟩, none⟩

/-- A layer with slanted wires. -/
def diagonalLayer (name : String) (wrap : Wrap) : LayerSettings R :=
  ⟨name, 400, 1146, some (Scalar.ofNat 8), Scalar.ofPlaces 575 2, ⟨.bottomLeft, wrap⟩, none⟩

/-- The layers of a frame. -/
def standardLayers : List (LayerSettings R) :=
  [straightLayer "G" 481, diagonalLayer "U" .clockwise, diagonalLayer "V" .counterClockwise,
    straightLayer "X" 480]

/-- The settings of an empty document. -/
def standard : Configuration R :=
  ⟨⟨"APA", "data", 100, 500, 8, 1, 5000, 120000⟩, .standard, .standard, .standard, .standard,
    standardLayers, ⟨"0.0.0.0", 6626⟩, ⟨true, 2⟩⟩

/-! ## Reading -/

open Settings

/-- Times and counts are kept in 64 bits. -/
def countLimit : Nat := UInt64.size

/-- The `machine` section. -/
def machine? (v : Toml.Value) : Option MachineSettings := do
  let d := (standard (R := R)).machine
  let count := optional? (count? countLimit) v
  return ⟨← optional? text? v 0 "apa_name" d.apaName,
    ← optional? text? v 1 "data_dir" d.dataDirectory,
    ← count 2 "io_period_ms" d.periodMillis, ← count 3 "plc_timeout_ms" d.controllerTimeoutMillis,
    ← count 4 "queue_capacity" d.queueCapacity, ← count 5 "persist_line_interval" d.persistInterval,
    ← count 6 "shutdown_timeout_ms" d.shutdownTimeoutMillis,
    ← count 7 "move_timeout_ms" d.moveTimeoutMillis⟩

/-- The `motion` section. -/
def rates? (v : Toml.Value) : Option (Rates R) := do
  let d : Rates R := .standard
  let rate := optional? number? v
  return ⟨← rate 0 "default_velocity" d.velocity, ← rate 1 "max_velocity" d.maxVelocity,
    ← rate 2 "default_acceleration" d.acceleration, ← rate 3 "max_acceleration" d.maxAcceleration,
    ← rate 4 "default_deceleration" d.deceleration, ← rate 5 "max_deceleration" d.maxDeceleration⟩

/-- The `bounds` section. -/
def bounds? (v : Toml.Value) : Option (Bounds R) := do
  let number := required? number? v
  return ⟨← number 0 "x_min", ← number 1 "x_max", ← number 2 "y_min", ← number 3 "y_max",
    ← number 4 "z_min", ← number 5 "z_max"⟩

/-- The `transfer` section. -/
def transfer? (v : Toml.Value) : Option (TransferBox R) := do
  let number := required? number? v
  return ⟨← number 0 "top", ← number 1 "bottom", ← number 2 "left", ← number 3 "right",
    ← number 4 "window"⟩

/-- The `head` section. -/
def head? (v : Toml.Value) : Option (HeadDepths R) := do
  let number := required? number? v
  return ⟨← number 0 "front", ← number 1 "partial_front", ← number 2 "partial_back",
    ← number 3 "back"⟩

/-- Names of corners. -/
def corners : List (String × Corner) :=
  [("bottom_left", .bottomLeft), ("bottom_right", .bottomRight), ("top_left", .topLeft),
    ("top_right", .topRight)]

/-- Names of directions. -/
def wraps : List (String × Wrap) :=
  [("clockwise", .clockwise), ("counter_clockwise", .counterClockwise)]

/-- One layer of the `layers` section. -/
def layer? (name : String) (v : Toml.Value) : Option (LayerSettings R) :=
  if !isSection v then none
  else do
    let count := required? (count? Layer.countLimit) v
    return ⟨name, ← count 0 "rows", ← count 1 "columns",
      ← optional? (fun w => (number? w).map some) v 2 "delta_x" none,
      ← required? number? v 3 "delta_y",
      ⟨← optional? (choice? corners) v 4 "start" .bottomLeft,
        ← optional? (choice? wraps) v 5 "wrap" .counterClockwise⟩,
      ← optional? (fun w => (text? w).map some) v 6 "calibration" none⟩

/-- The `layers` section, in the order of the names. -/
def layers? : Toml.Value → Option (List (LayerSettings R))
  | .table _ entries =>
    (entries.mergeSort fun a b => decide (a.1 ≤ b.1)).mapM fun (name, v) => layer? name v
  | _ => none

/-- The `ui` section. -/
def channel? (v : Toml.Value) : Option ChannelSettings := do
  let d := (standard (R := R)).channel
  return ⟨← optional? text? v 0 "bind_address" d.address,
    ← optional? (count? UInt16.size) v 1 "port" d.port⟩

/-- The `plc` section. -/
def controller? (v : Toml.Value) : Option ControllerSettings := do
  let d := (standard (R := R)).controller
  return ⟨← optional? boolean? v 0 "simulated" d.simulated,
    ← optional? (count? UInt32.size) v 1 "completion_polls" d.completionPolls⟩

/-- A section, or its default. -/
def sectionOr {α : Type} (read : Toml.Value → Option α) (entries : List (String × Toml.Value))
    (key : String) (other : α) : Option α :=
  match entries.lookup key with
  | none => some other
  | some v => if isSection v then read v else none

/-- The configuration that a document holds; it need not be valid. -/
def ofText? (text : String) : Option (Configuration R) := do
  let entries ← Toml.read? text
  let d : Configuration R := standard
  return ⟨← sectionOr (machine? (R := R)) entries "machine" d.machine,
    ← sectionOr rates? entries "motion" d.rates, ← sectionOr bounds? entries "bounds" d.bounds,
    ← sectionOr transfer? entries "transfer" d.transfer, ← sectionOr head? entries "head" d.head,
    ← sectionOr layers? entries "layers" d.layers,
    ← sectionOr (channel? (R := R)) entries "ui" d.channel,
    ← sectionOr (controller? (R := R)) entries "plc" d.controller⟩

/-! ## Validity -/

/-- The layout of the machine. -/
def envelope (c : Configuration R) : Except (GeometryError R) (Envelope R) :=
  Envelope.make c.bounds c.transfer c.head

/-- The layout of a layer. -/
def layerGeometry (l : LayerSettings R) :
    Except (Abort (GeometryError R)) (Layer R) :=
  Layer.make l.name l.rows l.columns l.pitchX l.pitchY l.numbering

/-- The layouts of all layers. -/
def layerGeometries (c : Configuration R) : Except (Abort (GeometryError R)) (List (Layer R)) :=
  c.layers.mapM layerGeometry

/-- The calibration files of all layers. -/
def calibrationPaths (c : Configuration R) (d : DataDirectory) : List (String × String) :=
  c.layers.map fun l => (l.name, l.calibration.getD (d.calibrationPath l.name))

/-- Accepts settings of the machine that are above zero. -/
def validateMachine (m : MachineSettings) : Except (ConfigurationError R) Unit :=
  if (trim m.apaName.toList).isEmpty then .error .emptyName
  else if m.periodMillis = 0 then .error (.notPositive "io_period_ms")
  else if m.controllerTimeoutMillis = 0 then .error (.notPositive "plc_timeout_ms")
  else if m.moveTimeoutMillis = 0 then .error (.notPositive "move_timeout_ms")
  else if m.queueCapacity = 0 then .error (.noneAllowed "queue_capacity")
  else if m.persistInterval = 0 then .error (.noneAllowed "persist_line_interval")
  else .ok ()

/-- Accepts a configuration with which the machine can run. -/
def validate (c : Configuration R) : Except (Abort (ConfigurationError R)) Unit := do
  (validateMachine c.machine).mapError .error
  c.rates.validate.mapError fun e => .error (.rates e)
  let _ ← c.envelope.mapError fun e => .error (.geometry e)
  let _ ← c.layerGeometries.mapError (Abort.map .geometry)

/-- The valid configuration in a file. -/
def load (files : FileStore) (path : String) :
    Except (Abort (ConfigurationError R)) (Configuration R) :=
  match files.read path with
  | .error fault => .error (.error (.unreadable fault))
  | .ok content =>
    match String.fromUTF8? content with
    | none => .error (.error (.unreadable .notText))
    | some text =>
      match ofText? text with
      | none => .error (.error .malformed)
      | some c => do
        c.validate
        return c

end Configuration

/-- The error in words. -/
def ConfigurationError.message {R : Type} [Scalar R] : ConfigurationError R → String
  | .unreadable fault => "IO error: " ++ fault.message
  | .malformed => "TOML parse error"
  | .geometry e => "Geometry error: " ++ e.message
  | .emptyName => "Invalid configuration: machine.apa_name cannot be empty"
  | .notPositive key => "Invalid configuration: machine." ++ key ++ " must be positive"
  | .noneAllowed key => "Invalid configuration: machine." ++ key ++ " must be at least 1"
  | .rates fault => "Invalid configuration: " ++ fault.message

instance {R : Type} [Scalar R] : Reported (ConfigurationError R) where
  code
    | .unreadable _ => "Io"
    | .malformed => "Toml"
    | .geometry e => "Geometry." ++ Reported.code e
    | .emptyName | .notPositive _ | .noneAllowed _ | .rates _ => "Invalid"
  message := ConfigurationError.message

end Winding

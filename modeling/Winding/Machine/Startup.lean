import Winding.Machine.State
import Winding.Settings.Configuration

/-!
# Starting the machine

A machine is made from the configuration and the record of its frame (`Machine.make`). When the
frame has a recipe in progress, that recipe is loaded again at its line, and winding goes on when
the operator starts it (`Machine.boot`).
-/

namespace Winding.Machine

variable {R : Type} [Scalar R]

/-- A machine at rest with an executor and the record of its frame. -/
def atRest (c : Configuration R) (files : FileStore) (d : DataDirectory) (x : Executor R)
    (exchange : Exchange R) (records : RecordStore R) (journal : Journal) (now : Timestamp) :
    Machine R where
  files := files
  directory := d
  executor := x
  exchange := exchange
  records := records
  journal := journal
  periodMillis := c.machine.periodMillis
  now := now
  mode := .stop
  stopRequested := false
  startRequested := false
  shutdownRequested := false
  pendingManual := []
  pendingCalibration := none
  visit := .none
  lastError := none
  woundBase := Scalar.zero

/-- The executor of a configuration. -/
def executorOf (c : Configuration R) (d : DataDirectory) :
    Except (Abort (MachineError R)) (Executor R) := do
  let envelope ← c.envelope.mapError fun e => .error (.geometry e)
  let layers ← c.layerGeometries.mapError (Abort.map .geometry)
  return .make ⟨envelope, c.rates⟩ layers (.ofPaths (c.calibrationPaths d))

/-- The machine of a configuration. The files are returned with what was made before a failure. -/
def make (c : Configuration R) (files : FileStore) (d : DataDirectory) (exchange : Exchange R)
    (now : Timestamp) : Except (Abort (MachineError R)) (Machine R) × FileStore :=
  match executorOf c d with
  | .error e => (.error e, files)
  | .ok x =>
    match RecordStore.load files d c.machine.apaName c.machine.persistInterval with
    | .error e => (.error (.error (.persistence e)), files)
    | .ok records =>
      match Journal.openAt files d.logPath with
      | (files, .error e) => (.error (.error (.persistence (.file e))), files)
      | (files, .ok journal) => (.ok (atRest c files d x exchange records journal now), files)

/-- The machine whose recipe in progress could not be loaded again. -/
def bootFailed (m : Machine R) (recipe : String) (line : Nat) (message : String) :
    Outcome R Unit :=
  (m.withRecord fun r => r.withFault m.now "boot" message (some line)).save.andThen fun _ m =>
    let m := m.note "machine" "fault" message [("recipe", recipe)]
    (.ok (), { m with lastError := some message })

/-- Takes over the position that the controller reports, and loads the recipe in progress again. -/
def boot (m : Machine R) : Outcome R Unit :=
  let record := m.record
  let m := m.note "machine" "boot" "host started" [("apa", record.name)]
  let m :=
    if m.status.responsive then
      { m with executor := m.executor.syncPosition m.status.position }
    else m
  match record.recipe with
  | none => (.ok (), m)
  | some recipe =>
    let line := record.line.getD 0
    let (result, x) := m.executor.load m.files recipe line
    let m := { m with executor := x }
    match result with
    | .ok () => (.ok (), m)
    | .error e => m.bootFailed recipe line e.message

end Winding.Machine

import Winding.Machine.Commands
import Winding.Machine.Control
import Winding.Machine.Startup

/-!
# Stations

A station is a machine with its controller and the dispatcher between them. It starts only when its
data directory can be made and the controller answers (`Station.start`). From then on the dispatcher
and the machine take turns.
-/

namespace Winding

/-- A machine, its controller and the dispatcher between them. -/
structure Station (σ R : Type) where
  machine : Machine R
  dispatcher : Dispatcher R
  plc : σ
  /-- Milliseconds since the start. -/
  clock : Nat

/-- Why a station does not start. -/
inductive StartupError (R : Type) where
  | files (error : FileError)
  | controller (error : ControllerError)
  | machine (error : MachineError R)

/-- The error in words. -/
def StartupError.message {R : Type} [Scalar R] : StartupError R → String
  | .files e => e.message
  | .controller e => e.message
  | .machine e => e.message

instance {R : Type} [Scalar R] : Reported (StartupError R) where
  code
    | .files e => Reported.code e
    | .controller e => Reported.code e
    | .machine e => Reported.code e
  message := StartupError.message

namespace Station

variable {σ R : Type} [Scalar R] [Adapter σ]

/-- The machine at its start, after the controller answered a first poll. -/
def startMachine (c : Configuration R) (files : FileStore) (d : DataDirectory) (now : Timestamp)
    (status : ControllerStatus R) : Except (Abort (StartupError R)) (Machine R) × FileStore :=
  match Machine.make c files d ⟨.empty c.machine.queueCapacity, status⟩ now with
  | (.error e, files) => (.error (e.map .machine), files)
  | (.ok m, _) =>
    match m.boot with
    | (.error e, m) => (.error (.error (.machine e)), m.files)
    | (.ok (), m) => (.ok m, m.files)

/-- The station of a configuration. The files are returned with what was made before a failure. -/
def start (c : Configuration R) (files : FileStore) (d : DataDirectory) (plc : σ) (clock : Nat)
    (now : Timestamp) : Except (Abort (StartupError R)) (Station σ R) × FileStore :=
  match d.prepare files with
  | (files, .error e) => (.error (.error (.files e)), files)
  | (files, .ok ()) =>
    match (Link.make c.machine.controllerTimeoutMillis).poll plc with
    | (.error e, _, _, _) => (.error (.error (.controller e)), files)
    | (.ok status, link, plc, waited) =>
      match startMachine c files d now status with
      | (.error e, files) => (.error e, files)
      | (.ok m, files) =>
        (.ok ⟨m, .make link c.machine.moveTimeoutMillis, plc, clock + waited⟩, files)

/-- One cycle of the dispatcher. -/
def dispatch (s : Station σ R) : Station σ R :=
  let (d, x, plc, waited) := s.dispatcher.cycle s.machine.exchange s.plc s.clock
  { machine := { s.machine with exchange := x }
    dispatcher := d
    plc := plc
    clock := s.clock + waited }

omit [Adapter σ] in
/-- The station after an operation of its machine. -/
def after {α : Type} (s : Station σ R) (o : Outcome R α) :
    Except (MachineError R) α × Station σ R :=
  (o.1, { s with machine := o.2 })

/-- One turn: a cycle of the dispatcher, and then a period of the machine. -/
def turn (s : Station σ R) : Except (MachineError R) Unit × Station σ R :=
  let s := s.dispatch
  s.after s.machine.tick

/-- Takes turns until a condition holds, at most `limit`; returns how many. -/
def turnUntil (isDone : Station σ R → Bool) :
    Nat → Station σ R → Except (MachineError R) Nat × Station σ R
  | 0, s => (.ok 0, s)
  | limit + 1, s =>
    if isDone s then (.ok 0, s)
    else match s.turn with
      | (.error e, s) => (.error e, s)
      | (.ok (), s) =>
        let (result, s) := turnUntil isDone limit s
        (result.map (· + 1), s)

end Station

end Winding

import Winding.Controller.Simulator
import Winding.Program.Arguments
import Winding.Station.Host

/-!
# Running the program

The program reads its configuration, makes the data directory and starts a station with the
simulated controller (`Program.launch`). What keeps it from running has an exit code: 1 for the
configuration, the files and the start, 2 for the arguments and the controller, 3 for a machine that
could not go on.
-/

namespace Winding.Program

/-- Why the program ends early. -/
inductive Failure (R : Type) where
  | arguments (error : ArgumentError)
  | configuration (error : ConfigurationError R)
  | files (error : FileError)
  | startup (error : StartupError R)
  | noController
  | machine (error : MachineError R)
  | overflow

namespace Failure

variable {R : Type}

/-- The exit code of the program. -/
def exitCode : Failure R → Nat
  | .configuration _ | .files _ | .startup _ => 1
  | .arguments _ | .noController => 2
  | .machine _ => 3
  | .overflow => 101

/-- The failure in words. -/
def message [Scalar R] : Failure R → String
  | .arguments e => "error: " ++ e.message
  | .configuration e => "Configuration error: " ++ e.message
  | .files e => "Data directory error: " ++ e.message
  | .startup e => "Startup failed: " ++ e.message
  | .noController =>
    "PLC unavailable: no PLC adapter is available; set plc.simulated = true"
  | .machine e => "Control loop failed: " ++ e.message
  | .overflow => "attempt to add with overflow"

/-- The failure of an operation that may overflow. -/
def ofAbort {ε : Type} (cause : ε → Failure R) : Abort ε → Failure R
  | .overflow => .overflow
  | .error e => cause e

end Failure

variable {R : Type} [Scalar R]

/-- The settings with the options in place of what the configuration says. -/
def override (o : Options) (c : Configuration R) : Configuration R :=
  { c with
    machine := { c.machine with
      dataDirectory := o.dataDirectory.getD c.machine.dataDirectory }
    channel := { c.channel with port := o.port.getD c.channel.port } }

/-- The configuration that options ask for. -/
def settings (o : Options) (files : FileStore) : Except (Failure R) (Configuration R) :=
  match Configuration.load files o.configurationPath with
  | .error e => .error (.ofAbort .configuration e)
  | .ok c => .ok (override o c)

/-- Starts the station of a configuration. The files are returned with what was made before a
failure. -/
def startStation (c : Configuration R) (files : FileStore) (now : Timestamp) :
    Except (Failure R) (Station Simulator R) × FileStore :=
  let d : DataDirectory := ⟨c.machine.dataDirectory⟩
  match d.prepare files with
  | (files, .error e) => (.error (.files e), files)
  | (files, .ok ()) =>
    if !c.controller.simulated then (.error .noController, files)
    else
      let (result, files) :=
        Station.start c files d (Simulator.make c.controller.completionPolls) 0 now
      (result.mapError (Failure.ofAbort .startup), files)

/-- Starts the program. -/
def start (o : Options) (files : FileStore) (now : Timestamp) :
    Except (Failure R) (Station Simulator R) × FileStore :=
  match settings o files with
  | .error e => (.error e, files)
  | .ok c => startStation c files now

/-- The files that a start may read outside the data directory: calibrations, and the recipe in
progress. -/
def outsideFiles (c : Configuration R) (files : FileStore) : List String :=
  let d : DataDirectory := ⟨c.machine.dataDirectory⟩
  let recipe := match RecordStore.load (R := R) files d c.machine.apaName 1 with
    | .ok s => s.record.recipe
    | .error _ => none
  (c.calibrationPaths d).map Prod.snd ++ recipe.toList

/-- What a launch comes to. -/
inductive Launch (R : Type) where
  /-- The arguments only asked for a text. -/
  | told (text : String)
  | failed (failure : Failure R)
  | running (station : Station Simulator R)

/-- The launch that a start comes to. -/
def Launch.ofStart : Except (Failure R) (Station Simulator R) → Launch R
  | .ok s => .running s
  | .error e => .failed e

/-- Launches the program. -/
def launch (arguments : List String) (files : FileStore) (now : Timestamp) :
    Launch R × FileStore :=
  match Request.ofArguments arguments with
  | .error e => (.failed (.arguments e), files)
  | .ok .help => (.told helpText, files)
  | .ok .version => (.told versionText, files)
  | .ok (.run o) =>
    let (result, files) := start o files now
    (.ofStart result, files)

end Winding.Program

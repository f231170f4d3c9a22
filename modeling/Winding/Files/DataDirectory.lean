import Winding.Files.Store

/-!
# The data directory

Where persisted state lives: one record file for each frame, one calibration file for each layer,
the recipes and the log.
-/

namespace Winding

/-- The directory under which all persisted state lives. -/
structure DataDirectory where
  root : String
deriving Repr

namespace DataDirectory

/-- The record file of a frame. -/
def recordPath (d : DataDirectory) (name : String) : String :=
  Files.join (Files.join d.root "APA") (name ++ ".xml")

/-- The calibration file of a layer. -/
def calibrationPath (d : DataDirectory) (layer : String) : String :=
  Files.join (Files.join d.root "calibration") (layer ++ ".xml")

/-- The log file. -/
def logPath (d : DataDirectory) : String :=
  Files.join (Files.join d.root "logs") "system.log"

/-- The file of a recipe; relative names are taken from the recipe directory. -/
def recipePath (d : DataDirectory) (name : String) : String :=
  if Files.isAbsolute name then name else Files.join (Files.join d.root "recipes") name

/-- The directories that are made at the start. -/
def directories (d : DataDirectory) : List String :=
  ["APA", "calibration", "logs", "recipes"].map (Files.join d.root)

/-- Makes directories one after the other, up to the first failure. -/
def makeAll (s : FileStore) : List String → FileStore × Except FileError Unit
  | [] => (s, .ok ())
  | path :: paths =>
    match s.makeDirectories path with
    | (s', some fault) => (s', .error (.io path fault))
    | (s', none) => makeAll s' paths

/-- Makes the directory tree for persisted state. -/
def prepare (d : DataDirectory) (s : FileStore) : FileStore × Except FileError Unit :=
  makeAll s d.directories

end DataDirectory

end Winding

import Std.Time.DateTime
import Winding.Program.Run

/-!
# The program

The outer layer. What is on disk is read into a store before the program is launched and before a
command is carried out, and what the program changed in the store is written back. Operators write
commands on the standard input and read replies on the standard output.
-/

namespace Winding.Program

/-! ## Files -/

/-- The store with the content of a file on disk, if there is one. -/
def readFile (s : FileStore) (path : String) : IO FileStore := do
  let file := (← IO.currentDir) / path
  if !(← file.pathExists) || (← file.isDir) then return s
  let content ← IO.FS.readBinFile file
  let s := (s.makeDirectories (FileStore.workplace path)).1
  return ((s.overwrite path content).toOption).getD s

/-- The store with the content of a directory on disk, if there is one. -/
partial def readTree (s : FileStore) (path : String) : IO FileStore := do
  let directory := (← IO.currentDir) / path
  if !(← directory.isDir) then readFile s path
  else
    let s := (s.makeDirectories path).1
    (← directory.readDir).foldlM (fun s entry => readTree s (Files.join path entry.fileName)) s

/-- Puts a finished file in the place of another. -/
def replaceFile (path : String) (content : ByteArray) : IO Unit := do
  IO.FS.writeBinFile (path ++ ".new") content
  IO.FS.rename (path ++ ".new") path

/-- Writes what changed from one store to another. -/
def writeChanges (old new : FileStore) : IO Unit := do
  for (place, node) in new.nodes do
    let path := "/" ++ String.intercalate "/" place
    match node, old.node? place with
    | .directory, some .directory => pure ()
    | .directory, _ => IO.FS.createDirAll path
    | .file content _, some (.file before _) =>
      if content.data ≠ before.data then replaceFile path content
    | .file content _, _ => replaceFile path content

/-! ## Running -/

/-- The time of day. -/
def timeOfDay : IO Timestamp := do
  let t := Std.Time.PlainDateTime.ofWallTime ((← Std.Time.Timestamp.now).toWallTime .zero)
  let year : Int := t.year
  return ⟨year, t.month.toNat, t.day.toNat, t.hour.toNat, t.minute.toNat, t.second.toNat,
    t.nanosecond.toNat⟩

/-- The files that a launch reads. -/
def filesFor (arguments : List String) : IO FileStore := do
  let s := FileStore.empty (Files.names (← IO.currentDir).toString)
  match Request.ofArguments arguments with
  | .ok (.run o) =>
    let s ← readFile s o.configurationPath
    match settings (R := Float) o s with
    | .error _ => return s
    | .ok c =>
      let s ← readTree s c.machine.dataDirectory
      (outsideFiles c s).foldlM readFile s
  | _ => return s

/-- The host with the files on disk and the time of day. -/
def refresh (h : Host Simulator Float) (line : String) : IO (Host Simulator Float) := do
  let m := h.station.machine
  let files ← readTree m.files m.directory.root
  let files ← match (Operator.Command.ofText line : Except _ (Operator.Command Float)) with
    | .ok (.load recipe _) => readFile files (m.directory.recipePath recipe)
    | _ => pure files
  return { h with station.machine.files := files, station.machine.now := ← timeOfDay }

/-- Answers a line. -/
def answer (h : Host Simulator Float) (line : String) : IO (Host Simulator Float) := do
  let h ← refresh h line
  let (response, h') := h.respond line
  writeChanges h.station.machine.files h'.station.machine.files
  IO.print response.written
  return h'

/-- Serves operators until the host closes or the input ends. -/
partial def serve (h : Host Simulator Float) (input : Task (Except IO.Error String)) :
    IO (Host Simulator Float) := do
  let old := h.station.machine.files
  if h.isClosed then return h
  if ← IO.hasFinished input then
    let line ← IO.ofExcept input.get
    if line.isEmpty then
      let h := h.close
      writeChanges old h.station.machine.files
      return h
    let h ← answer h line
    serve h (← IO.asTask (← IO.getStdin).getLine)
  else
    let h := { h with station.machine.now := ← timeOfDay }.turn
    writeChanges old h.station.machine.files
    IO.sleep h.station.machine.periodMillis.toUInt32
    serve h input

/-- Reports a failure and returns its exit code. -/
def ended (f : Failure Float) : IO UInt32 := do
  IO.eprintln f.message
  return f.exitCode.toUInt32

/-- Runs the program with its arguments. -/
def run (arguments : List String) : IO UInt32 := do
  let files ← filesFor arguments
  let (launched, changed) := launch (R := Float) arguments files (← timeOfDay)
  writeChanges files changed
  match launched with
  | .told text =>
    IO.print text
    return 0
  | .failed f => ended f
  | .running station =>
    let h ← serve (.start station) (← IO.asTask (← IO.getStdin).getLine)
    match h.failure with
    | some e => ended (.machine e)
    | none => return 0

end Winding.Program

/-- The program. -/
def main (arguments : List String) : IO UInt32 := Winding.Program.run arguments

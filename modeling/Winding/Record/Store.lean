import Winding.Files.DataDirectory
import Winding.Record.Apa

/-!
# Keeping the frame record

A record and the policy that decides when it is written back: the line is saved once it is some
lines away from the one that was saved last (`RecordStore.updateLine`).
-/

namespace Winding

/-- Why a record cannot be read or written. -/
inductive PersistenceError where
  | file (error : FileError)
  | record (fault : RecordFault)
deriving DecidableEq, Repr

/-- The error in words. -/
def PersistenceError.message : PersistenceError → String
  | .file e => "File error: " ++ e.message
  | .record .malformed => "XML error: malformed record"
  | .record (.invalidLength layer) => "Invalid APA record: layer " ++ layer ++ " wound length"

instance : Reported PersistenceError where
  code
    | .file e => "File." ++ Reported.code e
    | .record .malformed => "Xml"
    | .record (.invalidLength _) => "Invalid"
  message := PersistenceError.message

/-- A record, its file, and what of it was saved. -/
structure RecordStore (R : Type) where
  path : String
  record : ApaRecord R
  /-- Lines between saves, at least one. -/
  interval : Nat
  /-- The line that was saved last. -/
  savedLine : Option Nat
deriving Repr

namespace RecordStore

variable {R : Type} [Scalar R]

/-- A store for a record that was just read or made. -/
def ofRecord (path : String) (interval : Nat) (record : ApaRecord R) : RecordStore R :=
  ⟨path, record, max interval 1, record.line⟩

/-- The store of a frame: its file is read, or a fresh record begun if there is none. -/
def load (files : FileStore) (d : DataDirectory) (name : String) (interval : Nat) :
    Except PersistenceError (RecordStore R) :=
  let path := d.recordPath name
  if !files.contains path then .ok (ofRecord path interval (.fresh name))
  else match files.readText path with
    | .error e => .error (.file e)
    | .ok text =>
      match ApaRecord.ofText text with
      | .error fault => .error (.record fault)
      | .ok record => .ok (ofRecord path interval record)

/-- The store with its record changed in memory. -/
def modify (s : RecordStore R) (change : ApaRecord R → ApaRecord R) : RecordStore R :=
  { s with record := change s.record }

/-- Writes the record to its file. -/
def save (s : RecordStore R) (files : FileStore) :
    Except PersistenceError Unit × RecordStore R × FileStore :=
  match files.write s.path s.record.text.toUTF8 with
  | (files', .ok ()) => (.ok (), { s with savedLine := s.record.line }, files')
  | (files', .error e) => (.error (.file e), s, files')

/-- Whether a line is far enough from the saved one. -/
def isDue (s : RecordStore R) (line : Nat) : Bool :=
  match s.savedLine with
  | none => true
  | some saved => decide (s.interval ≤ max saved line - min saved line)

/-- Follows the line of the recipe in progress; says whether the record was saved. -/
def updateLine (s : RecordStore R) (files : FileStore) (line : Nat) :
    Except PersistenceError Bool × RecordStore R × FileStore :=
  if s.record.recipe.isNone then (.ok false, s, files)
  else
    let moved := s.modify fun r => { r with line := some line }
    if s.isDue line then
      let (result, s', files') := moved.save files
      (result.map fun _ => true, s', files')
    else (.ok false, moved, files)

theorem updateLine_eq (s : RecordStore R) (files : FileStore) (line : Nat) :
    s.updateLine files line =
      if s.record.recipe.isNone then (.ok false, s, files)
      else
        let moved := s.modify fun r => { r with line := some line }
        if s.isDue line then ((moved.save files).1.map fun _ => true, (moved.save files).2)
        else (.ok false, moved, files) := by
  unfold updateLine
  simp only

end RecordStore

end Winding

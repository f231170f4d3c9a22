import Winding.Files.Store
import Winding.Time.Timestamp

/-!
# The journal

Every notable event is one line of the journal: time, module, kind, message and parameters, with
tabs between them. The file stays open, so that entries reach it whatever happens to its name.
-/

namespace Winding

/-- An open journal. -/
structure Journal where
  path : String
  /-- The file that is open. -/
  serial : Nat
deriving DecidableEq, Repr

namespace Journal

/-- A field without the characters that end fields and lines. -/
def clean (s : String) : String :=
  String.ofList (s.toList.map fun c => if c = '\t' || c = '\n' || c = '\r' then ' ' else c)

/-- The parameters of an entry. -/
def parameters (params : List (String × String)) : String :=
  String.intercalate ";" (params.map fun (key, value) => key ++ "=" ++ clean value)

/-- The line of an entry. -/
def entry (time : Timestamp) (source kind message : String) (params : List (String × String)) :
    String :=
  String.intercalate "\t" [time.logText, clean source, clean kind, clean message, parameters params]
    ++ "\n"

/-- Opens a journal for appending, and makes its directories. -/
def openAt (files : FileStore) (path : String) : FileStore × Except FileError Journal :=
  let (files, fault) := files.makeDirectories ((Files.parent? path).getD "")
  match fault with
  | some fault => (files, .error (.io path fault))
  | none =>
    match files.openAppend path with
    | .error fault => (files, .error (.io path fault))
    | .ok (files, serial) => (files, .ok ⟨path, serial⟩)

/-- Appends an entry. -/
def record (j : Journal) (files : FileStore) (time : Timestamp) (source kind message : String)
    (params : List (String × String)) : FileStore :=
  files.append j.serial (entry time source kind message params).toUTF8

end Journal

end Winding

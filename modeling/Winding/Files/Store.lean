import Winding.Files.Path
import Winding.Text.Reported

/-!
# Files

The files that the program can see, as a value: directories and contents by place. Every operation
returns either what the operating system would return or its cause of failure. A file keeps its
serial number as long as it is written in place, so that an open file still finds it after other
files have taken its name (`FileStore.append`).
-/

namespace Winding

/-- Why the operating system refuses an operation. -/
inductive IoFault where
  | notFound
  | alreadyExists
  | notDirectory
  | isDirectory
  | nameTooLong
  | nulInName
  | notText
deriving DecidableEq, Repr

/-- The refusal in words. -/
def IoFault.message : IoFault → String
  | .notFound => "No such file or directory (os error 2)"
  | .alreadyExists => "File exists (os error 17)"
  | .notDirectory => "Not a directory (os error 20)"
  | .isDirectory => "Is a directory (os error 21)"
  | .nameTooLong => "File name too long (os error 36)"
  | .nulInName => "file name contained an unexpected NUL byte"
  | .notText => "stream did not contain valid UTF-8"

/-- A failed operation on a file. -/
inductive FileError where
  | io (path : String) (fault : IoFault)
  | notUtf8 (path : String)
  | notReplaced (path : String) (fault : IoFault)
deriving DecidableEq, Repr

/-- The error in words. -/
def FileError.message : FileError → String
  | .io path fault => "IO error on " ++ path ++ ": " ++ fault.message
  | .notUtf8 path => "UTF-8 error in " ++ path
  | .notReplaced path fault => "Could not replace " ++ path ++ ": " ++ fault.message

instance : Reported FileError where
  code
    | .io _ _ => "Io"
    | .notUtf8 _ => "Utf8"
    | .notReplaced _ _ => "Persist"
  message := FileError.message

/-- The names from the root to a place. -/
abbrev Place := List String

/-- What stands at a place. -/
inductive Node where
  | directory
  | file (content : ByteArray) (serial : Nat)

/-- All places except the root, and the place from which relative paths start. -/
structure FileStore where
  nodes : List (Place × Node)
  current : Place
  /-- The serial number of the next file. -/
  next : Nat

namespace FileStore

/-- No files; relative paths start at `current`, whose directories exist. -/
def empty (current : Place) : FileStore :=
  ⟨(List.range current.length).map fun i => (current.take (i + 1), .directory), current, 0⟩

/-! ## Places -/

/-- What stands at a place. -/
def node? (s : FileStore) (p : Place) : Option Node :=
  if p.isEmpty then some .directory else s.nodes.lookup p

/-- The associations with one changed, or added at the end. -/
def assign (p : Place) (n : Node) : List (Place × Node) → List (Place × Node)
  | [] => [(p, n)]
  | (q, m) :: rest => if q = p then (p, n) :: rest else (q, m) :: assign p n rest

theorem lookup_assign (p : Place) (n : Node) (l : List (Place × Node)) :
    (assign p n l).lookup p = some n := by
  induction l with
  | nil => simp [assign]
  | cons a l ih =>
    obtain ⟨q, m⟩ := a
    by_cases h : q = p
    · subst h; simp [assign]
    · have h' : (p == q) = false := by simp [Ne.symm h]
      simp [assign, h, List.lookup_cons, h', ih]

theorem lookup_assign_of_ne {p q : Place} (h : q ≠ p) (n : Node) (l : List (Place × Node)) :
    (assign p n l).lookup q = l.lookup q := by
  have hqp : (q == p) = false := by simp [h]
  induction l with
  | nil => simp [assign, List.lookup_cons, hqp]
  | cons a l ih =>
    obtain ⟨r, m⟩ := a
    by_cases hr : r = p
    · subst hr
      simp [assign, List.lookup_cons, hqp]
    · simp only [assign, hr, if_false, List.lookup_cons]
      split <;> simp_all

/-- The longest name, in bytes. -/
def nameLimit : Nat := 255

/-- The longest path, in bytes. -/
def pathLimit : Nat := 4095

/-- The place reached from a directory by names that are all directories. -/
def enter (s : FileStore) (at_ : Place) : List String → Except IoFault Place
  | [] => .ok at_
  | name :: names =>
    if name = "." then s.enter at_ names
    else if name = ".." then s.enter at_.dropLast names
    else if nameLimit < name.utf8ByteSize then .error .nameTooLong
    else match s.node? (at_ ++ [name]) with
      | none => .error .notFound
      | some (.file _ _) => .error .notDirectory
      | some .directory => s.enter (at_ ++ [name]) names

/-- The place that a path names, which need not exist, inside a directory that does. -/
def locate (s : FileStore) (path : String) : Except IoFault Place :=
  let start := if Files.isAbsolute path then [] else s.current
  let names := Files.names path
  if path.isEmpty then .error .notFound
  else if path.toList.contains '\x00' then .error .nulInName
  else if pathLimit < path.utf8ByteSize then .error .nameTooLong
  else match names.getLast? with
    | none => .ok start
    | some last => do
      let directory ← s.enter start names.dropLast
      if last = "." || last = ".." then s.enter directory [last]
      else if nameLimit < last.utf8ByteSize then .error .nameTooLong
      else .ok (directory ++ [last])

/-- What a path names. -/
def find (s : FileStore) (path : String) : Except IoFault Node := do
  match s.node? (← s.locate path) with
  | none => .error .notFound
  | some .directory => return .directory
  | some (.file content serial) =>
    if Files.asDirectory path then .error .notDirectory else return .file content serial

/-! ## Reading -/

/-- Whether a path names a file or a directory. -/
def contains (s : FileStore) (path : String) : Bool := (s.find path).toOption.isSome

/-- Whether a path names a directory. -/
def isDirectory (s : FileStore) (path : String) : Bool :=
  match s.find path with
  | .ok .directory => true
  | _ => false

/-- The content of a file. -/
def read (s : FileStore) (path : String) : Except IoFault ByteArray := do
  match ← s.find path with
  | .directory => .error .isDirectory
  | .file content _ => return content

/-- The content of a file as a text. -/
def readText (s : FileStore) (path : String) : Except FileError String :=
  match s.read path with
  | .error fault => .error (.io path fault)
  | .ok content =>
    match String.fromUTF8? content with
    | none => .error (.notUtf8 path)
    | some text => .ok text

/-- The names in a directory. -/
def list (s : FileStore) (path : String) : Except IoFault (List String) := do
  match ← s.find path with
  | .file _ _ => .error .notDirectory
  | .directory =>
    let place ← s.locate path
    return (s.nodes.filterMap fun (p, _) =>
      if p.dropLast = place then p.getLast? else none).mergeSort (fun a b => decide (a ≤ b))

/-! ## Writing -/

/-- The store with a node at a place. -/
def put (s : FileStore) (p : Place) (n : Node) : FileStore :=
  { s with nodes := assign p n s.nodes }

/-- The store with a new file at a place. -/
def putFile (s : FileStore) (p : Place) (content : ByteArray) : FileStore :=
  { s.put p (.file content s.next) with next := s.next + 1 }

/-- Makes one directory. -/
def makeDirectory (s : FileStore) (path : String) : Except IoFault FileStore := do
  let place ← s.locate path
  match s.node? place with
  | some _ => .error .alreadyExists
  | none => return s.put place .directory

/-- Makes a directory and those above it that are missing; `fuel` bounds how many. -/
def makeDirectoriesWithin (s : FileStore) (path : String) : Nat → FileStore × Option IoFault
  | 0 => (s, some .notFound)
  | fuel + 1 =>
    if path.isEmpty then (s, none)
    else match s.makeDirectory path with
      | .ok s' => (s', none)
      | .error .notFound =>
        match Files.parent? path with
        | none => (s, some .notFound)
        | some parent =>
          match s.makeDirectoriesWithin parent fuel with
          | (s', some fault) => (s', some fault)
          | (s', none) =>
            match s'.makeDirectory path with
            | .ok s'' => (s'', none)
            | .error fault => if s'.isDirectory path then (s', none) else (s', some fault)
      | .error fault => if s.isDirectory path then (s, none) else (s, some fault)

/-- Makes a directory and those above it that are missing. -/
def makeDirectories (s : FileStore) (path : String) : FileStore × Option IoFault :=
  s.makeDirectoriesWithin path (path.length + 1)

/-- Puts a finished file in the place of another. -/
def replace (s : FileStore) (path : String) (content : ByteArray) : Except IoFault FileStore := do
  let place ← s.locate path
  if Files.asDirectory path then .error .notDirectory
  match s.node? place with
  | some .directory => .error .isDirectory
  | _ => return s.putFile place content

/-- The directory in which the new content of a file is prepared. -/
def workplace (path : String) : String :=
  match Files.parent? path with
  | some parent => if parent.isEmpty then "." else parent
  | none => "."

/-- Writes a file whole: it has either its old or its new content. Missing directories are made
first, and stay when the write fails. -/
def write (s : FileStore) (path : String) (content : ByteArray) :
    FileStore × Except FileError Unit :=
  match s.makeDirectories (workplace path) with
  | (s', some fault) => (s', .error (.io (workplace path) fault))
  | (s', none) =>
    match s'.replace path content with
    | .ok s'' => (s'', .ok ())
    | .error fault => (s', .error (.notReplaced path fault))

/-- Changes the content of the file at a path, or makes it. -/
def overwrite (s : FileStore) (path : String) (content : ByteArray) : Except IoFault FileStore := do
  let place ← s.locate path
  match s.node? place with
  | some .directory => .error .isDirectory
  | some (.file _ serial) => return s.put place (.file content serial)
  | none => return s.putFile place content

/-- Opens a file for appending, making it if it is missing; returns its serial number. -/
def openAppend (s : FileStore) (path : String) : Except IoFault (FileStore × Nat) := do
  let place ← s.locate path
  match s.node? place with
  | some .directory => .error .isDirectory
  | some (.file _ serial) => return (s, serial)
  | none =>
    if Files.asDirectory path then .error .isDirectory
    else return (s.putFile place ByteArray.empty, s.next)

/-- Appends to an open file, wherever it is by now. -/
def append (s : FileStore) (serial : Nat) (content : ByteArray) : FileStore :=
  { s with nodes := s.nodes.map fun (p, n) =>
      match n with
      | .file old k => if k = serial then (p, .file (old ++ content) k) else (p, n)
      | .directory => (p, n) }

/-- Removes a file, or a directory with all that is in it. -/
def remove (s : FileStore) (path : String) : Except IoFault FileStore := do
  let place ← s.locate path
  match s.node? place with
  | none => .error .notFound
  | some _ => return { s with nodes := s.nodes.filter fun (p, _) => !place.isPrefixOf p }

end FileStore

end Winding

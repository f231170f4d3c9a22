import Winding.Number.Decimal

/-!
# TOML values and tables

A table remembers how it came about, because that decides what may still be added to it: tables that
a header or a dotted key only passed through can be defined later, finished ones cannot
(`Table.within?`). Keys are never given twice.
-/

namespace Winding.Toml

/-- How a table came about. -/
inductive Origin where
  /-- By its own header, or as the document. -/
  | header
  /-- As a parent of a table with a header. -/
  | implied
  /-- As the inside of a dotted key. -/
  | dotted
  /-- In braces; nothing can be added. -/
  | inline
deriving DecidableEq, Repr

/-- Whether a table has not been defined itself. -/
def Origin.isImplicit : Origin → Bool
  | .implied | .dotted => true
  | .header | .inline => false

/-- A value of a document. -/
inductive Value where
  | text (value : String)
  | whole (value : Int)
  | number (value : Numeral)
  | boolean (value : Bool)
  /-- A date, a time or both; only its form matters. -/
  | moment
  | list (values : List Value)
  /-- The tables under a repeated header. -/
  | tables (tables : List (Origin × List (String × Value)))
  | table (origin : Origin) (entries : List (String × Value))
deriving Repr, Inhabited

/-- A table: how it came about, and its entries. -/
abbrev Table := Origin × List (String × Value)

namespace Table

/-- The entries with one changed. -/
def assign (key : String) (v : Value) (entries : List (String × Value)) : List (String × Value) :=
  entries.map fun (k, w) => if k = key then (k, v) else (k, w)

/-- The table with one more entry, whose key must be new. -/
def add? (t : Table) (key : String) (v : Value) : Option Table :=
  if (t.2.lookup key).isSome then none else some (t.1, t.2 ++ [(key, v)])

/-- Changes the table at the end of a path. Tables that are missing on the way are made; a dotted
key passes only through tables without a definition of their own. -/
def within? (isDotted : Bool) (change : Table → Option Table) : List String → Table → Option Table
  | [], t => change t
  | key :: path, t =>
    match t.2.lookup key with
    | none => do
      let (origin, entries) ←
        within? isDotted change path (if isDotted then .dotted else .implied, [])
      return (t.1, t.2 ++ [(key, .table origin entries)])
    | some (.table origin entries) =>
      if origin = .inline || (isDotted && !origin.isImplicit) then none
      else do
        let (origin', entries') ← within? isDotted change path (origin, entries)
        return (t.1, assign key (.table origin' entries') t.2)
    | some (.tables ts) => do
      let last ← ts.getLast?
      let last' ← within? isDotted change path last
      return (t.1, assign key (.tables (ts.dropLast ++ [last'])) t.2)
    | some _ => none

/-- Gives a value to the last key of a dotted one. -/
def define? (keys : List String) (v : Value) (t : Table) : Option Table := do
  let key ← keys.getLast?
  let path := keys.dropLast
  within? true (fun parent =>
    if (parent.1 = .dotted) == path.isEmpty then none else parent.add? key v) path t

/-- Opens the table of a header. -/
def open? (keys : List String) (t : Table) : Option Table := do
  let key ← keys.getLast?
  within? false (fun parent =>
    match parent.2.lookup key with
    | none => parent.add? key (.table .header [])
    | some (.table .implied entries) =>
      some (parent.1, assign key (.table .header entries) parent.2)
    | some _ => none) keys.dropLast t

/-- Opens one more table of a repeated header. -/
def append? (keys : List String) (t : Table) : Option Table := do
  let key ← keys.getLast?
  within? false (fun parent =>
    match parent.2.lookup key with
    | none => parent.add? key (.tables [(.header, [])])
    | some (.tables ts) =>
      some (parent.1, assign key (.tables (ts ++ [(.header, [])])) parent.2)
    | some _ => none) keys.dropLast t

end Table

end Winding.Toml

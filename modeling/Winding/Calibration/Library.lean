import Winding.Calibration.Table

/-!
# The calibration library

One table for each layer, read from its file at the first use and kept.
-/

namespace Winding

/-- Where tables are, and the tables that were read. -/
structure CalibrationLibrary (R : Type) where
  paths : List (String × String)
  tables : List (String × PinTable R)
deriving Repr

namespace CalibrationLibrary

variable {R : Type}

/-- A library that has read nothing. -/
def ofPaths (paths : List (String × String)) : CalibrationLibrary R := ⟨paths, []⟩

/-- The library with a table under a layer, in place of another. -/
def keep (lib : CalibrationLibrary R) (layer : String) (table : PinTable R) :
    CalibrationLibrary R :=
  { lib with tables := (layer, table) :: lib.tables.filter fun (name, _) => name ≠ layer }

/-- The library with a table under its own layer. -/
def insert (lib : CalibrationLibrary R) (table : PinTable R) : CalibrationLibrary R :=
  lib.keep table.layer table

/-- The file of a layer's table. -/
def pathOf (lib : CalibrationLibrary R) (layer : String) : String :=
  (lib.paths.lookup layer).getD (layer ++ ".xml")

/-- The table of a layer, read if it is not kept yet. -/
def get [Scalar R] (lib : CalibrationLibrary R) (files : FileStore) (layer : String) :
    Except CalibrationError (PinTable R) × CalibrationLibrary R :=
  match lib.tables.lookup layer with
  | some table => (.ok table, lib)
  | none =>
    let path := lib.pathOf layer
    if !files.contains path then (.error (.missing layer path), lib)
    else match PinTable.load files path with
      | .error e => (.error e, lib)
      | .ok table =>
        if table.layer ≠ layer then (.error (.layerMismatch layer table.layer), lib)
        else (.ok table, lib.keep layer table)

end CalibrationLibrary

end Winding

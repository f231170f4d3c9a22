import Winding.Number.Scalar
import Winding.Toml.Reader

/-!
# Fields of configuration sections

A section is a table, or a list that gives the fields in their order. Fields that are not known are
not read. A value of the wrong kind is a fault of the whole document.
-/

namespace Winding.Settings

open Toml

/-- The value of a field of a section. -/
def field? (v : Value) (index : Nat) (key : String) : Option Value :=
  match v with
  | .table _ entries => entries.lookup key
  | .list values => values[index]?
  | _ => none

/-- Whether a value can hold fields. -/
def isSection : Value → Bool
  | .table _ _ | .list _ => true
  | _ => false

/-- A field that may be missing. -/
def optional? {α : Type} (read : Value → Option α) (v : Value) (index : Nat) (key : String)
    (other : α) : Option α :=
  match field? v index key with
  | none => some other
  | some w => read w

/-- A field that must be there. -/
def required? {α : Type} (read : Value → Option α) (v : Value) (index : Nat) (key : String) :
    Option α :=
  (field? v index key).bind read

/-! ## Kinds of values -/

/-- A text. -/
def text? : Value → Option String
  | .text s => some s
  | _ => none

/-- A natural number below a limit. -/
def count? (limit : Nat) : Value → Option Nat
  | .whole n => if 0 ≤ n ∧ n < limit then some n.toNat else none
  | _ => none

/-- A truth value. -/
def boolean? : Value → Option Bool
  | .boolean b => some b
  | _ => none

/-- A number; whole ones must fit 64 bits. -/
def number? {R : Type} [Scalar R] : Value → Option R
  | .number x => Scalar.ofNumeral? x
  | .whole n =>
    if Int64.minValue.toInt ≤ n ∧ n < UInt64.size then
      some (Scalar.ofDecimal ⟨decide (n < 0), n.natAbs, 0⟩)
    else none
  | _ => none

/-- One of some named values: its name, or a section with nothing but an empty one under it. -/
def choice? {α : Type} (names : List (String × α)) : Value → Option α
  | .text s => names.lookup s
  | .table _ [(s, .table _ [])] => names.lookup s
  | .table _ [(s, .list [])] => names.lookup s
  | _ => none

end Winding.Settings

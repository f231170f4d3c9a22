import Winding.Markup.Reader
import Winding.Number.Scalar
import Winding.Record.Stage
import Winding.Time.Timestamp

/-!
# Frame records

What is kept about one anode plane assembly: its stage, the wire wound on each layer, the recipe in
progress and the faults. Wound lengths only grow (`ApaRecord.raise`). A record is written as a
document and read back from it.
-/

namespace Winding

/-- A fault in the history of a frame. -/
structure FaultEntry where
  time : Timestamp
  kind : String
  message : String
  line : Option Nat
deriving DecidableEq, Repr

/-- The record of one frame. -/
structure ApaRecord (R : Type) where
  name : String
  stage : Stage
  /-- Wound lengths in the order of their layers, each layer once. -/
  wound : List (String × R)
  recipe : Option String
  line : Option Nat
  faults : List FaultEntry
deriving BEq, Repr

/-- Why a text is no record. -/
inductive RecordFault where
  | malformed
  | invalidLength (layer : String)
deriving DecidableEq, Repr

namespace ApaRecord

section Operations

variable {R : Type}

/-- The record of a frame that was never wound. -/
def fresh (name : String) : ApaRecord R := ⟨name, .uninitialized, [], none, none, []⟩

/-- The lengths with that of one layer set. -/
def assign (layer : String) (length : R) : List (String × R) → List (String × R)
  | [] => [(layer, length)]
  | (l, x) :: rest =>
    if l = layer then (layer, length) :: rest
    else if layer < l then (layer, length) :: (l, x) :: rest
    else (l, x) :: assign layer length rest

/-- The record with a recipe in progress. -/
def withRecipe (r : ApaRecord R) (recipe : String) (line : Nat) : ApaRecord R :=
  { r with recipe := some recipe, line := some line }

/-- The record without a recipe in progress. -/
def withoutRecipe (r : ApaRecord R) : ApaRecord R := { r with recipe := none, line := none }

/-- The record at its next stage. -/
def advance (r : ApaRecord R) : ApaRecord R := { r with stage := r.stage.next }

/-- The record with one more fault. -/
def withFault (r : ApaRecord R) (time : Timestamp) (kind message : String) (line : Option Nat) :
    ApaRecord R :=
  { r with faults := r.faults ++ [⟨time, kind, message, line⟩] }

end Operations

variable {R : Type} [Scalar R]

/-- The wire wound on a layer. -/
def length (r : ApaRecord R) (layer : String) : R := (r.wound.lookup layer).getD Scalar.zero

/-- Raises the wound length of a layer; says whether the new length is finite and longer. -/
def raise (r : ApaRecord R) (layer : String) (length : R) : Bool × ApaRecord R :=
  if Scalar.isFinite length && Scalar.lt (r.length layer) length then
    (true, { r with wound := assign layer length r.wound })
  else (false, r)

/-! ## Documents -/

/-- An attribute for a value that is there. -/
def optionalAttribute (key : String) (value : Option String) : List (String × String) :=
  (value.map fun v => (key, v)).toList

/-- The document of a record. -/
def document (r : ApaRecord R) : Markup.Document :=
  ⟨⟨"APA", [("name", r.name), ("stage", toString r.stage.number)] ++
      optionalAttribute "currentRecipe" r.recipe ++
      optionalAttribute "currentLine" (r.line.map toString)⟩,
    (r.wound.map fun (layer, length) =>
      ⟨"layer", [("name", layer), ("woundLength", Scalar.text length)]⟩) ++
    r.faults.map fun e =>
      ⟨"fault", [("time", e.time.text), ("kind", e.kind)] ++
        optionalAttribute "line" (e.line.map toString) ++ [("message", e.message)]⟩⟩

/-- The text of a record. -/
def text (r : ApaRecord R) : String := r.document.text

/-- Line numbers are kept in 64 bits. -/
def lineLimit : Nat := UInt64.size

/-- A line number. -/
def line? (s : String) : Option Nat := natBelow? lineLimit s.toList

/-- A stage number, kept in 8 bits. -/
def stage? (s : String) : Option Stage := (natBelow? UInt8.size s.toList).bind Stage.ofNumber?

/-- A layer element. -/
def layer? (tag : Markup.Tag) : Option (String × R) :=
  if tag.within ["name", "woundLength"] then do
    return (← tag.get? "name", ← (tag.get? "woundLength").bind Scalar.ofText?)
  else none

/-- A fault element; its message may be missing. -/
def fault? (tag : Markup.Tag) : Option FaultEntry :=
  if tag.within ["time", "kind", "line", "message"] then do
    return ⟨← (tag.get? "time").bind Timestamp.ofText?, ← tag.get? "kind",
      (tag.get? "message").getD "", ← tag.optional "line" line?⟩
  else none

/-- The record of a document, with the lengths as they are given. -/
def ofDocument? (d : Markup.Document) : Option (ApaRecord R) :=
  if d.root.within ["name", "stage", "currentRecipe", "currentLine"] &&
      d.children.all (fun tag => tag.name == "layer" || tag.name == "fault") then do
    return ⟨← d.root.get? "name", ← (d.root.get? "stage").bind stage?,
      ← (d.children.filter (·.name == "layer")).mapM layer?, d.root.get? "currentRecipe",
      ← d.root.optional "currentLine" line?,
      ← (d.children.filter (·.name == "fault")).mapM fault?⟩
  else none

/-- Whether a length can be one of wound wire. -/
def isLength (x : R) : Bool := Scalar.isFinite x && !Scalar.lt x Scalar.zero

/-- The record that a text writes. A layer that is given twice has its last length. -/
def ofText (s : String) : Except RecordFault (ApaRecord R) :=
  match (Markup.Document.ofText? s).bind ofDocument? with
  | none => .error .malformed
  | some r =>
    match r.wound.find? fun (_, length) => !isLength length with
    | some (layer, _) => .error (.invalidLength layer)
    | none =>
      .ok { r with wound := r.wound.foldl (fun ws (layer, length) => assign layer length ws) [] }

end ApaRecord

end Winding

import Winding.Controller.Adapter
import Winding.Controller.Tag

/-!
# Points and the registry

A point keeps the last known value of one tag. Inputs are refreshed from the controller, and outputs
are staged and then sent, both in the order of registration (`Registry.pollInputs`,
`Registry.flushOutputs`). In the standard registry the tag that triggers a motion comes last, after
its parameters.
-/

namespace Winding

/-- What a point holds. -/
inductive PointKind where
  | flag | analog | word
deriving DecidableEq, Repr

/-- One tag and what is known of it. -/
structure Point where
  tag : String
  kind : PointKind
  isOutput : Bool
  /-- The last known value. -/
  value : TagValue
  /-- Whether a staged value was not sent yet. -/
  isStaged : Bool

namespace PointKind

/-- The value of a point that was never read or written. -/
def initial : PointKind → TagValue
  | .flag => .flag false
  | .analog => .analog (TagValue.single 0)
  | .word => .word 0

/-- What a point holds, in words. -/
def text : PointKind → String
  | .flag => "bool"
  | .analog => "float"
  | .word => "int"

/-- The value as a point of this kind holds it. -/
def hold? (kind : PointKind) (v : TagValue) : Option TagValue :=
  match kind with
  | .flag => v.flag?.map .flag
  | .analog => v.analog?.map .analog
  | .word => v.word?.map .word

end PointKind

namespace Point

/-- A point that is read from the controller. -/
def input (kind : PointKind) (tag : String) : Point := ⟨tag, kind, false, kind.initial, false⟩

/-- A point that is written to the controller. -/
def output (kind : PointKind) (tag : String) : Point := ⟨tag, kind, true, kind.initial, false⟩

/-- The value as the point holds it. -/
def hold (p : Point) (v : TagValue) : Except ControllerError TagValue :=
  match p.kind.hold? v with
  | some w => .ok w
  | none => .error (.typeMismatch p.tag p.kind.text v)

/-- Stages a value of an output. -/
def stage (p : Point) (v : TagValue) : Except ControllerError Point :=
  if p.isOutput then do return { p with value := ← p.hold v, isStaged := true }
  else .error (.readOnly p.tag)

variable {σ : Type} [Adapter σ]

/-- Refreshes an input. -/
def refresh (p : Point) (plc : σ) : Answer Point × σ :=
  match Adapter.read plc p.tag with
  | (.error e, plc') => (.error e, plc')
  | (.ok v, plc') =>
    match p.hold v with
    | .error e => (.error (.refused e), plc')
    | .ok w => (.ok { p with value := w }, plc')

/-- Sends the staged value of an output, if there is one. -/
def send (p : Point) (plc : σ) : Answer Point × σ :=
  if !p.isStaged then (.ok p, plc)
  else match Adapter.write plc p.tag p.value with
    | (.error e, plc') => (.error e, plc')
    | (.ok (), plc') => (.ok { p with isStaged := false }, plc')

end Point

/-- The points in the order of registration, each tag once. -/
structure Registry where
  points : List Point

namespace Registry

/-- A registry without points. -/
def empty : Registry := ⟨[]⟩

/-- The points with one more, in the place of another with its tag. -/
def place (p : Point) : List Point → List Point
  | [] => [p]
  | q :: qs => if q.tag = p.tag then p :: qs else q :: place p qs

/-- Registers a point. -/
def register (r : Registry) (p : Point) : Registry := ⟨place p r.points⟩

/-- The point with a tag. -/
def get? (r : Registry) (tag : String) : Option Point := r.points.find? (·.tag == tag)

/-- The last known value of a tag. -/
def value? (r : Registry) (tag : String) : Option TagValue := (r.get? tag).map Point.value

/-- Stages a value for a tag. -/
def stage (r : Registry) (tag : String) (v : TagValue) : Except ControllerError Registry :=
  match r.get? tag with
  | none => .error (.unknownTag tag)
  | some p => do return r.register (← p.stage v)

/-- The points of the winder; the one that triggers a motion is the last. -/
def standard : Registry :=
  ⟨[.input .word Tag.state, .input .word Tag.errorCode, .input .word Tag.switches,
      .input .flag Tag.ready] ++
    Axis.all.flatMap (fun a => [.input .analog (Tag.position a), .input .analog (Tag.velocity a),
      .input .analog (Tag.command a), .input .flag (Tag.moduleFault a)]) ++
    Tag.moveParameters.map (.output .analog) ++
    [.output .word Tag.latchSide, .output .word Tag.headSide, .output .word Tag.moveType]⟩

/-- Applies an operation to the selected points in turn, up to the first that has no answer. -/
def visit {σ : Type} (select : Point → Bool) (use : Point → σ → Answer Point × σ) :
    List Point → σ → Answer Unit × List Point × σ
  | [], plc => (.ok (), [], plc)
  | p :: ps, plc =>
    if select p then
      match use p plc with
      | (.error e, plc') => (.error e, p :: ps, plc')
      | (.ok p', plc') =>
        let (result, ps', plc'') := visit select use ps plc'
        (result, p' :: ps', plc'')
    else
      let (result, ps', plc') := visit select use ps plc
      (result, p :: ps', plc')

variable {σ : Type} [Adapter σ]

/-- Refreshes all inputs. -/
def pollInputs (r : Registry) (plc : σ) : Answer Unit × Registry × σ :=
  let (result, points, plc') := visit (!·.isOutput) Point.refresh r.points plc
  (result, ⟨points⟩, plc')

/-- Sends all staged outputs. -/
def flushOutputs (r : Registry) (plc : σ) : Answer Unit × Registry × σ :=
  let (result, points, plc') := visit Point.isOutput Point.send r.points plc
  (result, ⟨points⟩, plc')

end Registry

end Winding

import Winding.Controller.Registry
import Winding.Controller.Status
import Winding.Motion.Primitive

/-!
# The link to the controller

Turns tags into a status (`Link.poll`) and primitives into tags (`Link.submit`). Each waits for the
controller only for a limited time.
-/

namespace Winding

/-- The host's end of the connection. -/
structure Link (R : Type) where
  registry : Registry
  timeoutMillis : Nat
  /-- Where the last poll found the machine. -/
  position : Location R

namespace Link

variable {R : Type} [Scalar R]

/-- A link that was never used. -/
def make (timeoutMillis : Nat) : Link R := ⟨.standard, timeoutMillis, .origin⟩

/-- The status that a registry shows. -/
def statusOf (r : Registry) : ControllerStatus R :=
  let word (tag : String) : Int := ((r.value? tag).bind TagValue.word?).getD 0
  let number (tag : String) : R := ((r.value? tag).bind TagValue.number?).getD Scalar.zero
  let flag (tag : String) : Bool := ((r.value? tag).bind TagValue.flag?).getD false
  { functional := true
    responsive := true
    ready := flag Tag.ready
    state := .ofCode (word Tag.state)
    errorCode := word Tag.errorCode
    switches := word Tag.switches
    position := ⟨number (Tag.position .x), number (Tag.position .y), number (Tag.position .z)⟩
    velocity := Axis.all.map fun a => number (Tag.velocity a)
    axisFaults := Axis.all.filter fun a => flag (Tag.moduleFault a)
    stalled := none
    lastError := none }

/-- Stages values for tags, in order. -/
def stageAll (r : Registry) : List (String × TagValue) → Except ControllerError Registry
  | [] => .ok r
  | (tag, v) :: rest => do stageAll (← r.stage tag v) rest

/-- Whether a move is along the z axis alone. -/
def isVertical (l : Link R) (target : Location R) : Bool :=
  Location.near target.x l.position.x && Location.near target.y l.position.y

/-- The parameters of a move. -/
def moveValues (target : Location R) (limits : Limits R) : List (String × TagValue) :=
  (Axis.all.map fun a => (Tag.target a, .analog (Scalar.toSingle (target.on a)))) ++
    [(Tag.speed, .analog (Scalar.toSingle limits.velocity)),
      (Tag.acceleration, .analog (Scalar.toSingle limits.acceleration)),
      (Tag.deceleration, .analog (Scalar.toSingle limits.deceleration))]

/-- The motion that a primitive asks for, and its parameters. A dwell and a pause ask for none. -/
def request? (l : Link R) : Primitive R → Option (ControllerState × List (String × TagValue))
  | .move target limits | .seek _ target limits =>
    some (if l.isVertical target then .zSeek else .xySeek, moveValues target limits)
  | .latch side => some (.latching, [(Tag.latchSide, .word side.code)])
  | .head side z =>
    some (.head, [(Tag.headSide, .word side.code), (Tag.target .z, .analog (Scalar.toSingle z))])
  | .dwell _ | .pause => none

variable {σ : Type} [Adapter σ]

/-- Refreshes the inputs and reads the status off them. Also says how long a silent controller was
waited for. -/
def poll (l : Link R) (plc : σ) :
    Except ControllerError (ControllerStatus R) × Link R × σ × Nat :=
  if !Adapter.functional plc then (.error .notFunctional, l, plc, 0)
  else
    let (answer, registry, plc) := l.registry.pollInputs plc
    let l := { l with registry := registry }
    match answer with
    | .error .silence => (.error (.unresponsive l.timeoutMillis), l, plc, l.timeoutMillis)
    | .error (.refused e) => (.error e, l, plc, 0)
    | .ok () =>
      let status := statusOf registry
      (.ok status, { l with position := status.position }, plc, 0)

/-- Stages and sends the tags of a primitive. Also says how long a silent controller was waited
for. -/
def submit (l : Link R) (plc : σ) (p : Primitive R) :
    Except ControllerError Unit × Link R × σ × Nat :=
  match l.request? p with
  | none => (.ok (), l, plc, 0)
  | some (motion, parameters) =>
    match stageAll l.registry (parameters ++ [(Tag.moveType, .word motion.code)]) with
    | .error e => (.error e, l, plc, 0)
    | .ok staged =>
      let (answer, registry, plc) := staged.flushOutputs plc
      let l := { l with registry := registry }
      match answer with
      | .error .silence => (.error (.unresponsive l.timeoutMillis), l, plc, l.timeoutMillis)
      | .error (.refused e) => (.error e, l, plc, 0)
      | .ok () => (.ok (), l, plc, 0)

end Link

end Winding

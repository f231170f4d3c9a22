import Winding.Controller.Adapter
import Winding.Controller.Tag

/-!
# A simulated controller

Keeps the tags in memory and plays the controller's part. A request drops `READY` for some reads of
it; the read after these finds the axes at their targets and `READY` back.
-/

namespace Winding

/-- A controller in memory. -/
structure Simulator where
  tags : List (String × TagValue)
  /-- The motion under way, and the reads of `READY` for which it goes on. -/
  busy : Option (Nat × ControllerState)
  /-- Reads of `READY` that a motion takes, at least one. -/
  completionPolls : Nat
  /-- Whether reads stay without an answer. -/
  isStalled : Bool
  /-- Whether requests are accepted and never started. -/
  ignoresMoves : Bool
  isFunctional : Bool
  /-- The motions that were asked for, oldest first. -/
  submissions : List ControllerState

namespace Simulator

/-- The value of a tag. -/
def tag? (s : Simulator) (tag : String) : Option TagValue := s.tags.lookup tag

/-- The tags with one set. -/
def assign (tag : String) (v : TagValue) : List (String × TagValue) → List (String × TagValue)
  | [] => [(tag, v)]
  | (t, w) :: rest => if t = tag then (t, v) :: rest else (t, w) :: assign tag v rest

/-- The simulator with a tag set. -/
def set (s : Simulator) (tag : String) (v : TagValue) : Simulator :=
  { s with tags := assign tag v s.tags }

/-- The value zero of an analog tag. -/
def zero : TagValue := .analog (TagValue.single 0)

/-- A controller at rest at the origin. -/
def make (completionPolls : Nat) : Simulator :=
  ⟨[(Tag.state, .word ControllerState.ready.code), (Tag.errorCode, .word 0),
      (Tag.switches, .word 0), (Tag.moveType, .word 0), (Tag.latchSide, .word 0),
      (Tag.headSide, .word 0), (Tag.ready, .flag true)] ++
    Tag.moveParameters.map (·, zero) ++
    Axis.all.flatMap fun a => [(Tag.position a, zero), (Tag.velocity a, zero),
      (Tag.command a, zero), (Tag.moduleFault a, .flag false)],
    none, max completionPolls 1, false, false, true, []⟩

/-- Puts an axis at its target. -/
def reach (s : Simulator) (a : Axis) : Simulator :=
  s.set (Tag.position a) ((s.tag? (Tag.target a)).getD zero)

/-- Puts the axes of a motion at their targets. -/
def arrive (s : Simulator) : ControllerState → Simulator
  | .xySeek | .zSeek => Axis.all.foldl reach s
  | .head => s.reach .z
  | _ => s

/-- Ends a motion. -/
def finish (s : Simulator) (motion : ControllerState) : Simulator :=
  ((s.arrive motion).set Tag.state (.word ControllerState.ready.code)).set Tag.ready (.flag true)

/-- The value of a tag, for a read. -/
def answer (s : Simulator) (tag : String) : Answer TagValue × Simulator :=
  match s.tag? tag with
  | some v => (.ok v, s)
  | none => (.error (.refused (.unknownTag tag)), s)

/-- Reads a tag. -/
def read (s : Simulator) (tag : String) : Answer TagValue × Simulator :=
  if s.isStalled then (.error .silence, s)
  else if tag = Tag.ready then
    match s.busy with
    | some (n + 1, motion) => (.ok (.flag false), { s with busy := some (n, motion) })
    | some (0, motion) => ({ s with busy := none }.finish motion).answer tag
    | none => s.answer tag
  else s.answer tag

/-- Begins a motion. -/
def begin (s : Simulator) (motion : ControllerState) : Simulator :=
  let s := { s with submissions := s.submissions ++ [motion] }
  if s.ignoresMoves then s
  else ({ s with busy := some (s.completionPolls, motion) }.set Tag.state (.word motion.code)).set
    Tag.ready (.flag false)

/-- Writes a tag. -/
def write (s : Simulator) (tag : String) (v : TagValue) : Answer Unit × Simulator :=
  if !s.isFunctional then (.error (.refused .notFunctional), s)
  else if (s.tag? tag).isNone then (.error (.refused (.unknownTag tag)), s)
  else
    let s := s.set tag v
    (.ok (), if tag = Tag.moveType then s.begin (.ofCode (v.word?.getD 0)) else s)

instance : Adapter Simulator := ⟨isFunctional, read, write⟩

/-! ## Faults -/

/-- Puts the controller into its error state. -/
def injectFault (s : Simulator) (code : Int) : Simulator :=
  (({ s with busy := none }.set Tag.state (.word ControllerState.error.code)).set Tag.errorCode
    (.word code)).set Tag.ready (.flag false)

/-- Sets the fault of an axis. -/
def setAxisFault (s : Simulator) (a : Axis) (isFaulted : Bool) : Simulator :=
  s.set (Tag.moduleFault a) (.flag isFaulted)

/-- Takes the controller out of its error state. -/
def clearFault (s : Simulator) : Simulator :=
  Axis.all.foldl (fun s a => s.setAxisFault a false)
    (((s.set Tag.state (.word ControllerState.ready.code)).set Tag.errorCode (.word 0)).set
      Tag.ready (.flag true))

end Simulator

end Winding

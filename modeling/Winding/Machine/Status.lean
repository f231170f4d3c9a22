import Winding.Machine.State
import Winding.Operator.Report

/-!
# The status of the machine

What an operator is told about the machine: its mode, the planned pose, the session and its
progress, the motion queue, the controller and the record of the frame.
-/

namespace Winding.Machine

open Operator

variable {R : Type}

/-- A point. -/
def pointReport (p : Location R) : Report R :=
  .group [("x", .number p.x), ("y", .number p.y), ("z", .number p.z)]

/-- The name of a state of the controller in status documents; a state without one has its code. -/
def stateReport : ControllerState → Report R
  | .init => .text "init"
  | .ready => .text "ready"
  | .xySeek => .text "xy_seek"
  | .zSeek => .text "z_seek"
  | .latching => .text "latching"
  | .head => .text "head"
  | .error => .text "error"
  | .other code => .group [("other", .whole code)]

/-- The controller. -/
def controllerReport (s : ControllerStatus R) : Report R :=
  .group [("functional", .flag s.functional), ("responsive", .flag s.responsive),
    ("ready", .flag s.ready), ("state", stateReport s.state), ("error_code", .whole s.errorCode),
    ("sw_status", .whole s.switches), ("position", pointReport s.position),
    ("velocity", .list (s.velocity.map .number)),
    ("axis_faults", .list (s.axisFaults.map fun a => .text a.letter)),
    ("stalled_move", .textOr s.stalled), ("last_error", .textOr s.lastError)]

/-- The session. -/
def sessionReport (s : Session R) : Report R :=
  .group [("path", .textOr s.path), ("layer", .text s.layer), ("hash", .text s.hash),
    ("line", .whole s.cursor), ("total_lines", .whole s.lines.length)]

/-- The motion queue. -/
def queueReport (q : Queue R) : Report R :=
  .group [("length", .whole q.length), ("capacity", .whole q.capacity),
    ("submitted", .whole q.submitted), ("completed", .whole q.completed),
    ("last_completed", .textOr q.lastCompleted)]

/-- A fault of the frame. -/
def faultReport (e : FaultEntry) : Report R :=
  .group [("time", .text e.time.text), ("kind", .text e.kind), ("message", .text e.message),
    ("line", .wholeOr e.line)]

/-- The record of the frame. -/
def recordReport (r : ApaRecord R) : Report R :=
  .group [("name", .text r.name), ("stage", .whole r.stage.number),
    ("stage_name", .text r.stage.text),
    ("wound_length", .group (r.wound.map fun (layer, length) => (layer, .number length))),
    ("current_recipe", .textOr r.recipe), ("current_line", .wholeOr r.line),
    ("fault_count", .whole r.faults.length),
    ("last_fault", (r.faults.getLast?.map faultReport).getD .nothing)]

variable [Scalar R]

/-- The progress of the session. -/
def progressReport (x : Executor R) : Report R :=
  .group [("wire_length", .number x.wire), ("committed_wire_length", .number x.committedWire),
    ("wind_seconds", .number (Scalar.ofMillis x.windMillis)), ("lines_emitted", .whole x.emitted),
    ("line", .wholeOr x.line?), ("total_lines", .whole x.lineCount)]

/-- The status of the machine. -/
def report (m : Machine R) : Report R :=
  let pose := m.executor.pose
  .group [("mode", .text m.mode.text), ("handler_state", .text m.executor.state.text),
    ("position", pointReport pose.position), ("latch", .text pose.latch.key),
    ("head", .text pose.head.key), ("active_pin", .textOr (pose.activePin.map Pin.text)),
    ("recipe", (m.executor.session.map sessionReport).getD .nothing),
    ("stats", progressReport m.executor), ("queue", queueReport m.queue),
    ("plc", controllerReport m.status), ("apa", recordReport m.record),
    ("stop_requested", .flag m.stopRequested), ("last_error", .textOr m.lastError),
    ("updated", .text m.now.text)]

/-- The machine in a few words. -/
def summary (m : Machine R) : String :=
  "Machine \x7b mode: " ++ m.mode.title ++ ", handler: " ++ m.executor.state.title ++
    ", queue: " ++ toString m.queue.length ++ " \x7d"

end Winding.Machine

import Winding.Machine.State

/-!
# Control

Once in every period the machine does the work of its mode (`Machine.update`) and goes over to the
mode that the work asks for (`Machine.transition`). The record is saved whenever a mode is left.
-/

namespace Winding.Machine

variable {R : Type} [Scalar R]

/-! ## Stopped -/

/-- Picks up what was asked for. Nothing starts any more once a shutdown was asked for. -/
def updateStop (m : Machine R) : Outcome R (Option Mode) :=
  let m := { m with stopRequested := false }
  if m.shutdownRequested then
    (.ok none, { m with startRequested := false, pendingManual := [], pendingCalibration := none })
  else if m.startRequested then (.ok (some .wind), { m with startRequested := false })
  else if m.pendingCalibration.isSome then (.ok (some .calibration), m)
  else if m.pendingManual.isEmpty then (.ok none, m)
  else (.ok (some .manual), m)

/-! ## Manual motion -/

/-- Queues the motion that was asked for. -/
def queueRequest (m : Machine R) :
    ManualRequest R → Except (ExecutorError R) (Primitive R × Executor R × Queue R)
  | .jog target velocity => m.executor.jog m.queue target velocity
  | .head side => m.executor.moveHead m.queue side
  | .latch side => m.executor.moveLatch m.queue side

/-- Queues the oldest request, which waits if the queue is full. -/
def carryOut (m : Machine R) (request : ManualRequest R) (later : List (ManualRequest R)) :
    Machine R :=
  if m.queue.free = 0 then m
  else match m.queueRequest request with
    | .ok (_, x, q) => { m with pendingManual := later }.withMotion x q
    | .error (.queueFull _) => m
    | .error e =>
      let m := { m with pendingManual := later }.note "manual" "rejected" e.message []
      { m with lastError := some e.message }

/-- Queues one motion, or ends manual mode once all have run. -/
def updateManual (m : Machine R) : Outcome R (Option Mode) :=
  match m.status.fault? with
  | some reason => ({ m with pendingManual := [] }.motionFault "manual" reason).as (some .stop)
  | none =>
    let m := if m.stopRequested then { m with pendingManual := [] } else m
    match m.pendingManual with
    | request :: later => (.ok none, m.carryOut request later)
    | [] => (.ok (if m.queue.isEmpty then some .stop else none), m)

/-! ## Winding -/

/-- Begins to wind the session. -/
def enterWind (m : Machine R) : Machine R :=
  match m.executor.session with
  | none => m
  | some s =>
    { m with
      woundBase := m.record.length s.layer - m.executor.committedWire
      lastError := none }.note "wind" "start" ("winding layer " ++ s.layer)
      [("line", toString s.cursor)]

/-- Plans up to `count` lines into the queue. A line goes in whole or not at all. Returns the error
that ended it, if one did. -/
def plan (m : Machine R) : Nat → Option (ExecutorError R) × Machine R
  | 0 => (none, m)
  | count + 1 =>
    let (result, x, q) := m.executor.step m.queue
    let m := m.withMotion x q
    match result with
    | .ok .advanced => m.plan count
    | .ok .pause =>
      (none, m.note "wind" "break" "recipe break" [("line", lineText m.executor.line?)])
    | .ok (.blocked _) | .ok .finished => (none, m)
    | .error e => (some e, m)

/-- Fills the queue; a line that cannot be planned ends winding. -/
def windOn (m : Machine R) : Outcome R (Option Mode) :=
  match m.plan m.queue.capacity with
  | (some e, m) => (m.fault "recipe" e.message).as (some .stop)
  | (none, m) => m.syncProgress.as none

/-- Lets the queue run empty, and then stops. -/
def windDown (m : Machine R) : Outcome R (Option Mode) :=
  let (isDrained, x) := m.executor.drain m.queue.isEmpty
  let m := { m with executor := x }
  if !isDrained then m.syncProgress.as none
  else if m.executor.state = .done then m.finishRecipe.as (some .stop)
  else m.syncProgress.andThen fun _ m =>
    (.ok (some .stop),
      m.note "wind" "stopped" "winding stopped" [("line", lineText m.executor.committedLine?)])

/-- Winds on, winds down, or ends with the recipe. -/
def updateWind (m : Machine R) : Outcome R (Option Mode) :=
  let m := { m with executor := (m.executor.spend m.periodMillis).settle m.queue }
  match m.status.fault? with
  | some reason => (m.fault "plc" reason).as (some .stop)
  | none =>
    let m := if m.stopRequested then { m with executor := m.executor.requestStop } else m
    match m.executor.state with
    | .stopping => m.windDown
    | .done => if m.queue.isEmpty then m.finishRecipe.as (some .stop) else m.syncProgress.as none
    | .idle => (.ok (some .stop), m)
    | .ready | .emitting | .blocked | .faulted => m.windOn

/-! ## Visiting a pin -/

/-- Begins the visit that was asked for. -/
def enterCalibration (m : Machine R) : Machine R :=
  { m with
    pendingCalibration := none
    visit := (m.pendingCalibration.map PinVisit.wanted).getD .none }

/-- Writes down where the head is. -/
def notePosition (m : Machine R) (kind : String) : Machine R :=
  let at_ := m.status.position
  m.note "calibration" kind ("head at " ++ at_.text)
    [("pin", (m.visit.pin?.map Pin.text).getD ""), ("x", Scalar.text at_.x),
      ("y", Scalar.text at_.y)]

/-- Queues the move to a pin. -/
def visitPin (m : Machine R) (pin : Pin) : Outcome R (Option Mode) :=
  if m.queue.free = 0 then (.ok none, m)
  else match m.executor.seekPin m.queue pin with
    | .ok (_, x, q) => (.ok none, { m with visit := .issued pin }.withMotion x q)
    | .error e => (.ok (some .stop), { m with lastError := some e.message })

/-- Moves to the pin, and ends once the move has run. -/
def updateCalibration (m : Machine R) : Outcome R (Option Mode) :=
  match m.status.fault? with
  | some reason => (m.motionFault "calibration" reason).as (some .stop)
  | none =>
    match m.visit with
    | .none => (.ok (some .stop), m)
    | .wanted pin =>
      if m.stopRequested then (.ok (some .stop), m.notePosition "stopped") else m.visitPin pin
    | .issued _ =>
      if m.queue.isEmpty then
        (.ok (some .stop), m.notePosition (if m.stopRequested then "stopped" else "reached"))
      else (.ok none, m)

/-! ## Changing modes -/

/-- Begins a mode. -/
def enter (m : Machine R) : Mode → Machine R
  | .stop => { m with stopRequested := false }
  | .manual => m
  | .wind => m.enterWind
  | .calibration => m.enterCalibration

/-- The work of the mode in one period, and the mode to go over to. -/
def update (m : Machine R) : Outcome R (Option Mode) :=
  match m.mode with
  | .stop => m.updateStop
  | .manual => m.updateManual
  | .wind => m.updateWind
  | .calibration => m.updateCalibration

/-- Ends the mode. -/
def leave (m : Machine R) : Outcome R Unit :=
  match m.mode with
  | .stop | .manual => (.ok (), m)
  | .wind => m.syncProgress
  | .calibration => (.ok (), { m with visit := .none })

/-- Goes over to a mode. -/
def transition (m : Machine R) (next : Mode) : Outcome R Unit :=
  if next = m.mode then (.ok (), m)
  else m.leave.andThen fun _ m => m.save.andThen fun _ m =>
    let m := m.note "machine" "mode" (m.mode.text ++ " -> " ++ next.text) []
    (.ok (), { m with mode := next }.enter next)

/-- One period. -/
def tick (m : Machine R) : Outcome R Unit :=
  m.update.andThen fun next m =>
    match next with
    | none => (.ok (), m)
    | some next => m.transition next

/-- Stops and saves for the last time. -/
def shutdown (m : Machine R) : Outcome R Unit :=
  (m.transition .stop).andThen fun _ m => m.save.andThen fun _ m =>
    (.ok (), m.note "machine" "shutdown" "host stopping" [])

end Winding.Machine

import Winding.Controller.Dispatcher
import Winding.Execution.Executor
import Winding.Machine.Mode
import Winding.Record.Journal

/-!
# The state of the machine

The machine owns the executor, the record of the frame and the requests of the operator. It shares
the motion queue and the published status with the dispatcher. Only writing the record can fail;
what was changed before the failure stays changed, and so an operation comes to a result and a
machine (`Outcome`).
-/

namespace Winding

/-- Everything that the modes work on. -/
structure Machine (R : Type) where
  files : FileStore
  directory : DataDirectory
  executor : Executor R
  exchange : Exchange R
  records : RecordStore R
  journal : Journal
  periodMillis : Nat
  /-- The time of day, for the journal and the record. -/
  now : Timestamp
  mode : Mode
  stopRequested : Bool
  startRequested : Bool
  shutdownRequested : Bool
  /-- Manual motion that was accepted and not queued yet, oldest first. -/
  pendingManual : List (ManualRequest R)
  pendingCalibration : Option Pin
  visit : PinVisit
  lastError : Option String
  /-- The wound length of the layer without the wire committed in this session. -/
  woundBase : R

/-- The result of an operation and the machine after it, also when it failed. -/
abbrev Outcome (R α : Type) := Except (MachineError R) α × Machine R

/-- Goes on with the result unless the operation failed. -/
def Outcome.andThen {R α β : Type} (o : Outcome R α) (rest : α → Machine R → Outcome R β) :
    Outcome R β :=
  match o with
  | (.ok a, m) => rest a m
  | (.error e, m) => (.error e, m)

/-- The outcome with another result. -/
def Outcome.as {R α β : Type} (o : Outcome R α) (b : β) : Outcome R β :=
  o.andThen fun _ m => (.ok b, m)

namespace Machine

variable {R : Type} [Scalar R]

/-- The motion queue. -/
def queue (m : Machine R) : Queue R := m.exchange.queue

/-- The status of the controller that was published last. -/
def status (m : Machine R) : ControllerStatus R := m.exchange.status

/-- The record of the frame. -/
def record (m : Machine R) : ApaRecord R := m.records.record

/-- The machine with another executor and motion queue. -/
def withMotion (m : Machine R) (x : Executor R) (q : Queue R) : Machine R :=
  { m with executor := x, exchange := { m.exchange with queue := q } }

/-- Whether the machine is stopped with nothing left for the controller. -/
def isQuiescent (m : Machine R) : Bool := m.mode = .stop && m.queue.isEmpty

/-- Writes an entry in the journal. -/
def note (m : Machine R) (source kind message : String) (params : List (String × String)) :
    Machine R :=
  { m with files := m.journal.record m.files m.now source kind message params }

/-- The number of a line, or nothing. -/
def lineText (line : Option Nat) : String := (line.map toString).getD ""

/-! ## The record -/

/-- Changes the record in memory. -/
def withRecord (m : Machine R) (change : ApaRecord R → ApaRecord R) : Machine R :=
  { m with records := m.records.modify change }

/-- The outcome of an operation on the record and its file. -/
def persisted {α : Type} (m : Machine R)
    (o : Except PersistenceError α × RecordStore R × FileStore) : Outcome R α :=
  (o.1.mapError .persistence, { m with records := o.2.1, files := o.2.2 })

/-- Writes the record to its file. -/
def save (m : Machine R) : Outcome R Unit := m.persisted (m.records.save m.files)

/-- The wound length of the session's layer, as far as motion has run. -/
def woundLength (m : Machine R) : R := m.woundBase + m.executor.committedWire

/-- Raises the wound length of a layer to that of the session. -/
def raiseWound (m : Machine R) (layer : String) : Machine R :=
  m.withRecord fun r => (r.raise layer m.woundLength).2

/-- Brings the record up to what has run of the session. -/
def syncProgress (m : Machine R) : Outcome R Unit :=
  match m.executor.session with
  | none => (.ok (), m)
  | some s =>
    let m := m.raiseWound s.layer
    match m.executor.committedLine? with
    | none => (.ok (), m)
    | some line => (m.persisted (m.records.updateLine m.files line)).as ()

/-- The entry of a finished recipe. -/
def noteComplete (m : Machine R) (layer : String) : Machine R :=
  m.note "wind" "complete" ("layer " ++ layer ++ " complete")
    [("stage", m.record.stage.text), ("wire", Scalar.fixed 3 m.executor.wire),
      ("seconds", Scalar.fixed 1 (Scalar.ofMillis m.executor.windMillis : R))]

/-- The recipe ran to its end: the frame is at its next stage, and the recipe is forgotten. -/
def finishRecipe (m : Machine R) : Outcome R Unit :=
  m.syncProgress.andThen fun _ m =>
    let layer := (m.executor.session.map Session.layer).getD ""
    match m.executor.unload with
    | .error e => (.error (.executor e), m)
    | .ok x =>
      let m := { m with executor := x }.withRecord fun r => r.advance.withoutRecipe
      m.save.andThen fun _ m => (.ok (), m.noteComplete layer)

/-! ## Faults -/

/-- The record with the line that a fault goes back to; only a recipe in progress has a line. -/
def rewound (line : Option Nat) (r : ApaRecord R) : ApaRecord R :=
  if line.isSome && r.recipe.isSome then { r with line := line } else r

/-- Ends winding with a fault: drops the motion that is queued, goes back to the first line that has
not run, and saves the record. -/
def fault (m : Machine R) (kind message : String) : Outcome R Unit :=
  let (dropped, q) := m.queue.clear
  let m := m.withMotion (m.executor.fault (dropped.filterMap QueueEntry.line).min?) q
  let line := m.executor.committedLine?
  let m := match m.executor.session with
    | some s => m.raiseWound s.layer
    | none => m
  let m := m.withRecord fun r => (rewound line r).withFault m.now kind message line
  m.save.andThen fun _ m =>
    let m := m.note "wind" "fault" message [("kind", kind), ("line", lineText line)]
    (.ok (), { m with lastError := some message, stopRequested := false })

/-- Ends manual motion with a fault of the controller: drops the motion that is queued, and takes
the reported position as the planned one. -/
def motionFault (m : Machine R) (source message : String) : Outcome R Unit :=
  let (dropped, q) := m.queue.clear
  let m := m.withMotion (m.executor.syncPosition m.status.position) q
  let m := m.withRecord fun r => r.withFault m.now "plc" message none
  m.save.andThen fun _ m =>
    let m := m.note source "fault" message
      [("kind", "plc"), ("dropped", toString dropped.length)]
    (.ok (), { m with lastError := some message, stopRequested := false })

end Machine

end Winding

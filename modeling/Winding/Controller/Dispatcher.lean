import Winding.Controller.Link
import Winding.Motion.Queue

/-!
# Dispatching primitives

The dispatcher hands the controller one primitive at a time. It submits the front of the queue,
waits for the controller to become busy and ready again, and then retires the entry. An entry that
does not complete in time is reported as a fault and stays in front until it is dropped from the
queue.
-/

namespace Winding

/-- What the dispatcher shares with the machine. -/
structure Exchange (R : Type) where
  queue : Queue R
  /-- The status that was published last. -/
  status : ControllerStatus R
deriving Repr

/-- The entry that is being carried out. Times are in milliseconds. -/
inductive Active where
  | motion (seq : Nat) (sawBusy : Bool) (deadline : Nat)
  | dwell (seq : Nat) (until_ : Nat)
deriving DecidableEq, Repr

/-- The number of the entry that is being carried out. -/
def Active.seq : Active → Nat
  | .motion seq _ _ | .dwell seq _ => seq

/-- Hands primitives to the controller. -/
structure Dispatcher (R : Type) where
  link : Link R
  /-- The longest time that one primitive may take. -/
  moveTimeoutMillis : Nat
  active : Option Active
  /-- The entry that took too long, and the reason that is reported for it. -/
  stalled : Option (Nat × String)

namespace Dispatcher

variable {R : Type} [Scalar R]

/-- A dispatcher at rest. -/
def make (link : Link R) (moveTimeoutMillis : Nat) : Dispatcher R :=
  ⟨link, moveTimeoutMillis, none, none⟩

/-- Whether an entry is in front of the queue. -/
def isFront (q : Queue R) (seq : Nat) : Bool := q.front?.map QueueEntry.seq == some seq

/-- Publishes a status with which no motion can go on. -/
def fail (d : Dispatcher R) (x : Exchange R) (status : ControllerStatus R) :
    Dispatcher R × Exchange R :=
  ({ d with active := none }, { queue := x.queue.setReady false, status := status })

/-- Retires the active entry. -/
def retire (d : Dispatcher R) (x : Exchange R) (seq : Nat) : Dispatcher R × Exchange R :=
  ({ d with active := none }, { x with queue := (x.queue.complete seq).2 })

/-- The entry in front took too long. -/
def giveUp (d : Dispatcher R) (x : Exchange R) (seq : Nat) : Dispatcher R :=
  let primitive := (x.queue.front?.map fun e => e.primitive.text).getD ""
  { d with
    active := none
    stalled := some (seq, (ControllerError.incomplete primitive d.moveTimeoutMillis).message) }

/-- Follows the active entry: retires it when it is done, and gives up on it when it takes too
long. -/
def follow (d : Dispatcher R) (x : Exchange R) (ready : Bool) (now : Nat) :
    Dispatcher R × Exchange R :=
  match d.active with
  | none => (d, x)
  | some (.motion seq sawBusy deadline) =>
    if ready && sawBusy then d.retire x seq
    else if deadline ≤ now then (d.giveUp x seq, x)
    else if ready then (d, x)
    else ({ d with active := some (.motion seq true deadline) }, x)
  | some (.dwell seq until_) => if until_ ≤ now then d.retire x seq else (d, x)

/-- Forgets the active entry if it is not in front any more. -/
def dropMissing (d : Dispatcher R) (q : Queue R) : Dispatcher R :=
  { d with active := d.active.filter fun a => isFront q a.seq }

/-- Forgets the entry that took too long if it is not in front any more. -/
def dropStalled (d : Dispatcher R) (q : Queue R) : Dispatcher R :=
  { d with stalled := d.stalled.filter fun s => isFront q s.1 }

variable {σ : Type} [Adapter σ]

/-- Starts the entry in front. A pause is done at once, and a failed submission is published. Also
says how long a silent controller was waited for. -/
def start (d : Dispatcher R) (x : Exchange R) (plc : σ) (e : QueueEntry R) (now : Nat) :
    Dispatcher R × Exchange R × σ × Nat :=
  match e.primitive with
  | .dwell ms => ({ d with active := some (.dwell e.seq (now + ms)) }, x, plc, 0)
  | .pause => (d, { x with queue := (x.queue.complete e.seq).2 }, plc, 0)
  | p =>
    let (result, link, plc, waited) := d.link.submit plc p
    let d := { d with link := link }
    match result with
    | .ok () =>
      ({ d with active := some (.motion e.seq false (now + d.moveTimeoutMillis)) }, x, plc, waited)
    | .error error =>
      let (d, x) := d.fail x { x.status with responsive := false, lastError := some error.message }
      (d, x, plc, waited)

/-- Follows the active entry, and starts the next one when the controller is ready for it. The clock
is read for the one, and again for the other. -/
def advance (d : Dispatcher R) (x : Exchange R) (plc : σ) (ready : Bool) (now later : Nat) :
    Dispatcher R × Exchange R × σ × Nat :=
  let (d, x) := (d.dropMissing x.queue).follow x ready now
  if d.stalled.isNone && d.active.isNone && ready then
    match x.queue.front? with
    | some e => d.start x plc e later
    | none => (d, x, plc, 0)
  else (d, x, plc, 0)

/-- The status after a poll without an answer. -/
def unanswered (x : Exchange R) (plc : σ) (error : ControllerError) : ControllerStatus R :=
  { x.status with
    functional := Adapter.functional plc
    responsive := false
    lastError := some error.message }

/-- Acts on a status: publishes it, and carries motion on unless it shows a fault. -/
def act (d : Dispatcher R) (x : Exchange R) (plc : σ) (polled : ControllerStatus R)
    (now later : Nat) : Dispatcher R × Exchange R × σ × Nat :=
  let d := d.dropStalled x.queue
  let status := { polled with stalled := d.stalled.map (·.2) }
  if status.isFault then
    let (d, x) := d.fail x status
    (d, x, plc, 0)
  else
    let (d, x, plc, waited) := d.advance { x with status := status } plc status.ready now later
    match d.stalled with
    | some (_, reason) =>
      let (d, x) := d.fail x { status with stalled := some reason }
      (d, x, plc, waited)
    | none => (d, { x with queue := x.queue.setReady status.isHealthy }, plc, waited)

/-- One cycle: polls, retires what is done and submits what is next. Also says how long a silent
controller was waited for. -/
def cycleOver (d : Dispatcher R) (x : Exchange R) (plc : σ) (now later : Nat) :
    Dispatcher R × Exchange R × σ × Nat :=
  let (result, link, plc, waited) := d.link.poll plc
  let d := { d with link := link }
  match result with
  | .error error =>
    let (d, x) := d.fail x (unanswered x plc error)
    (d, x, plc, waited)
  | .ok polled => d.act x plc polled now later

/-- One cycle that takes no time. -/
def cycle (d : Dispatcher R) (x : Exchange R) (plc : σ) (now : Nat) :
    Dispatcher R × Exchange R × σ × Nat :=
  d.cycleOver x plc now now

end Dispatcher

end Winding

import Winding.Proofs.Controller.Turns
import Winding.Proofs.Machine.Steering
import Winding.Proofs.Station.Runs

/-!
# Handing over motion

A dispatcher hands the motion of a queue over to a controller, while whoever shares the queue pushes
and drops motion and has periods of a machine, and the controller does what it likes
(`Handover.Event`). What a dispatcher's turns keep, and pushes and drops keep, holds in every run
(`Handover.log_keeps`).
-/

namespace Winding

variable {σ R : Type}

/-- A dispatcher with the queue that it shares, and its controller. -/
structure Handover (σ R : Type) where
  dispatcher : Dispatcher R
  exchange : Exchange R
  plc : σ

/-- What can happen to motion that is handed over. -/
inductive Handover.Event (σ R : Type) where
  /-- A cycle of the dispatcher. The clock is read once to follow the active entry, and once more to
  start the next one. -/
  | cycle (now later : Nat)
  | push (line : Option Nat) (primitives : List (Primitive R))
  | clear
  /-- A period of a machine that shares the queue and the published status. -/
  | tick (m : Machine R)
  /-- The controller changes by itself. -/
  | world (plc : σ)

namespace Handover

/-- The observer's view. -/
def watch (h : Handover σ R) (log : List (Note R)) : Watch R :=
  h.dispatcher.watch h.exchange log

variable [Scalar R]

/-- A dispatcher at rest with an empty queue. -/
def start (link : Link R) (moveTimeoutMillis capacity : Nat) (status : ControllerStatus R)
    (plc : σ) : Handover σ R :=
  ⟨.make link moveTimeoutMillis, ⟨.empty capacity, status⟩, plc⟩

variable [Adapter σ]

/-- What comes after an event. A batch that does not fit is not pushed. -/
def perform (h : Handover σ R) : Event σ R → Handover σ R
  | .cycle now later =>
    let (d, x, plc, _) := h.dispatcher.cycleOver h.exchange h.plc now later
    ⟨d, x, plc⟩
  | .push line primitives =>
    match h.exchange.queue.pushAll line primitives with
    | .ok q => { h with exchange := { h.exchange with queue := q } }
    | .error _ => h
  | .clear => { h with exchange := { h.exchange with queue := h.exchange.queue.clear.2 } }
  | .tick m => { h with exchange := { m with exchange := h.exchange }.tick.2.exchange }
  | .world plc => { h with plc := plc }

/-- What is noted of an event. -/
def notes (h : Handover σ R) : Event σ R → List (Note R)
  | .cycle now later => h.dispatcher.notes h.exchange h.plc now later
  | .push .. | .clear | .tick _ | .world _ => []

/-- What comes after events. -/
def run (h : Handover σ R) (es : List (Event σ R)) : Handover σ R := es.foldl perform h

/-- What is noted of events. -/
def log (h : Handover σ R) : List (Event σ R) → List (Note R)
  | [] => []
  | e :: es => h.notes e ++ (h.perform e).log es

/-- What turns, pushes and drops keep is kept by an event. -/
theorem perform_keeps {P : Watch R → Prop} (turn : ∀ {w w'}, P w → w.Turn w' → P w')
    (steer : ∀ {w : Watch R} {q}, P w → w.queue.Steers q → P { w with queue := q })
    {h : Handover σ R} {log : List (Note R)} (e : Event σ R) (holds : P (h.watch log)) :
    P ((h.perform e).watch (log ++ h.notes e)) := by
  cases e with
  | cycle now later =>
    exact (h.dispatcher.cycleOver_turns h.exchange h.plc now later log).keeps holds turn
  | push line primitives =>
    rw [perform, notes, List.append_nil]
    split
    · next pushed => exact steer holds (.push pushed)
    · exact holds
  | clear =>
    rw [notes, List.append_nil]
    exact steer holds (.clear _)
  | tick m =>
    rw [notes, List.append_nil]
    exact steer holds { m with exchange := h.exchange }.tick_steers
  | world plc =>
    rw [notes, List.append_nil]
    exact holds

/-- What turns, pushes and drops keep is kept by events. -/
theorem log_keeps {P : Watch R → Prop} (turn : ∀ {w w'}, P w → w.Turn w' → P w')
    (steer : ∀ {w : Watch R} {q}, P w → w.queue.Steers q → P { w with queue := q })
    {h : Handover σ R} {log : List (Note R)} (es : List (Event σ R)) (holds : P (h.watch log)) :
    P ((h.run es).watch (log ++ h.log es)) := by
  induction es generalizing h log with
  | nil => rwa [Handover.log, List.append_nil]
  | cons e es ih =>
    rw [Handover.log, ← List.append_assoc]
    exact ih (perform_keeps turn steer e holds)

end Handover

/-- The controller on the bench, with a queue of its own. -/
def Bench.handover : Handover Bench.Plc Whole := .start (.make 100) 1000 8 .unknown ⟨true, false⟩

end Winding

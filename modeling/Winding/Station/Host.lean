import Winding.Station.Basic

/-!
# The host

The host serves operators while its station runs. In every period the dispatcher has its cycle; then
the commands that have come in are carried out, the machine has its period, and a new report is
published. Requests for the status are answered from the published report. After a shutdown the host
closes as soon as the machine is at rest, and it closes when the machine cannot go on.
-/

namespace Winding

open Operator

/-- A station that serves operators. -/
structure Host (σ R : Type) where
  station : Station σ R
  published : Report R
  /-- Whether the host serves operators no more. -/
  isClosed : Bool
  /-- The error with which the machine could not go on. -/
  failure : Option (MachineError R)

namespace Host

variable {σ R : Type} [Scalar R]

/-- The host of a station that was just started. -/
def ofStation (s : Station σ R) : Host σ R := ⟨s, s.machine.report, false, none⟩

/-- The machine cannot go on. -/
def fail (h : Host σ R) (e : MachineError R) : Host σ R :=
  { h with isClosed := true, failure := some e }

/-- Acts on the outcome of an operation of the machine: publishes a new report, or fails. -/
def settle (h : Host σ R) (o : Outcome R Unit) : Host σ R :=
  let h := { h with station := { h.station with machine := o.2 } }
  match o.1 with
  | .ok () => { h with published := o.2.report }
  | .error e => h.fail e

/-- Stops the machine for good. -/
def close (h : Host σ R) : Host σ R :=
  if h.isClosed then h
  else { h with isClosed := true }.settle h.station.machine.shutdown

/-- Closes once the machine was told to shut down and is at rest. -/
def closeAtRest (h : Host σ R) : Host σ R :=
  if h.station.machine.shutdownRequested && h.station.machine.isQuiescent then h.close else h

/-- One period of the machine. -/
def tick (h : Host σ R) : Host σ R :=
  let h := h.settle h.station.machine.tick
  if h.isClosed then h else h.closeAtRest

/-- Carries out a command in front of a period of the machine. -/
def command (h : Host σ R) (c : Command R) : String × Host σ R :=
  match h.station.machine.handle c with
  | (.ok reply, m) => (reply.text, { h with station := { h.station with machine := m } }.tick)
  | (.error e, m) =>
    (refusal e.message, { h with station := { h.station with machine := m } }.fail e)

variable [Adapter σ]

/-- One cycle of the dispatcher; the clock goes on by a period after it. -/
def dispatch (h : Host σ R) : Host σ R :=
  let s := h.station.dispatch
  { h with station := { s with clock := s.clock + s.machine.periodMillis } }

/-- One turn without a command. -/
def turn (h : Host σ R) : Host σ R := if h.isClosed then h else h.dispatch.tick

/-- The host after its first turn. -/
def start (s : Station σ R) : Host σ R := (ofStation s).turn

/-- What comes back for a line. -/
inductive Response (R : Type) where
  /-- The line is blank. -/
  | ignored
  /-- The host serves nobody any more. -/
  | closed
  | reply (r : Reply R)

omit [Adapter σ] in
/-- What is written back: a reply on a line of its own, or nothing. -/
def Response.written : Response R → String
  | .ignored | .closed => ""
  | .reply r => r.text ++ "\n"

/-- Answers a line. A request for the status, and a line that is no command, take no time; any other
command is carried out in a turn of its own. -/
def respond (h : Host σ R) (line : String) : Response R × Host σ R :=
  if h.isClosed then (.closed, h)
  else if (trim line.toList).isEmpty then (.ignored, h)
  else match Command.ofText line with
    | .error e => (.reply (.line (refusal e.message)), h)
    | .ok .status => (.reply (.status h.published), h)
    | .ok c =>
      let (text, h) := h.dispatch.command c
      (.reply (.line text), h)

end Host

end Winding

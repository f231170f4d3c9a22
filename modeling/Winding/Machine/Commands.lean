import Winding.Machine.Status
import Winding.Operator.Command

/-!
# Carrying out commands

Every command has one reply. A command that the machine refuses changes nothing but the journal;
motion is only asked for here, and starts with the next period (`Machine.handle`).
-/

namespace Winding

/-- The answer to a command. -/
inductive Operator.Reply (R : Type) where
  | line (text : String)
  | status (report : Operator.Report R)

/-- The reply as one line. -/
def Operator.Reply.text {R : Type} [Scalar R] : Operator.Reply R → String
  | .line text => text
  | .status report => report.written

/-- The reply to a command that is refused. -/
def Operator.refusal (reason : String) : String := "error " ++ reason

namespace Machine

open Operator

variable {R : Type} [Scalar R]

/-- The reply while a mode keeps the machine busy. -/
def busy (m : Machine R) : String := refusal ("busy in " ++ m.mode.text ++ " mode")

/-- The reply to what cannot be done without a recipe. -/
def noRecipe : String := refusal (PlanError.message (R := R) .noRecipe)

/-- Asks to wind the session. -/
def start (m : Machine R) : String × Machine R :=
  if m.shutdownRequested then (refusal "shutting down", m)
  else if m.mode ≠ .stop then (m.busy, m)
  else if m.executor.session.isNone then (noRecipe (R := R), m)
  else match m.status.fault? with
    | some reason => (refusal reason, m)
    | none =>
      match m.executor.arm with
      | .error e => (refusal e.message, m)
      | .ok x => ("ok", { m with executor := x, stopRequested := false, startRequested := true })

/-- Asks for a manual motion. -/
def ask (m : Machine R) (request : ManualRequest R) : String × Machine R :=
  if m.mode ≠ .stop ∧ m.mode ≠ .manual then (m.busy, m)
  else if m.shutdownRequested then (refusal "shutting down", m)
  else ("ok", { m with pendingManual := m.pendingManual ++ [request] })

/-- Asks to move to a point. -/
def jog (m : Machine R) (target : Location R) (velocity : Option R) : String × Machine R :=
  if !m.executor.context.envelope.bounds.contains target then
    (refusal (PlanError.message (.outOfBounds target)), m)
  else match velocity.filter (!Rates.usable ·) with
    | some v => (refusal (PlanError.message (.invalidLimits v)), m)
    | none => m.ask (.jog target velocity)

/-- The machine once a recipe was loaded. -/
def adopt (m : Machine R) (path : String) (line : Nat) : Outcome R String :=
  match m.executor.session with
  | none => (.ok (noRecipe (R := R)), m)
  | some s =>
    (m.withRecord fun r => r.withRecipe path line).save.andThen fun _ m =>
      (.ok ("ok " ++ s.layer ++ " " ++ toString s.lines.length ++ " lines"),
        m.note "machine" "load" ("recipe " ++ path ++ " loaded")
          [("layer", s.layer), ("line", toString line)])

/-- Loads a recipe. -/
def load (m : Machine R) (recipe : String) (line : Nat) : Outcome R String :=
  if m.mode ≠ .stop then (.ok m.busy, m)
  else
    let path := m.directory.recipePath recipe
    let (result, x) := m.executor.load m.files path line
    let m := { m with executor := x }
    match result with
    | .error e =>
      (.ok (refusal e.message), m.note "machine" "load_failed" e.message [("recipe", path)])
    | .ok () => m.adopt path line

/-- Asks to visit a pin of the session's layer. -/
def calibrate (m : Machine R) (pin : Pin) : String × Machine R :=
  if m.mode ≠ .stop then (m.busy, m)
  else match m.executor.session with
    | none => (noRecipe (R := R), m)
    | some s =>
      if s.table.contains pin then ("ok", { m with pendingCalibration := some pin })
      else (refusal ("pin " ++ pin.text ++ " is not calibrated for layer " ++ s.layer), m)

/-- A reply that cannot fail. -/
def replied (r : String × Machine R) : Outcome R (Reply R) := (.ok (.line r.1), r.2)

/-- Carries out a command. -/
def handle (m : Machine R) : Command R → Outcome R (Reply R)
  | .start => replied m.start
  | .stop => replied ("ok", { m with stopRequested := true, startRequested := false })
  | .jog target velocity => replied (m.jog target velocity)
  | .head side => replied (m.ask (.head side))
  | .latch side => replied (m.ask (.latch side))
  | .load recipe line =>
    (m.load recipe (line.getD 0)).andThen fun text m => (.ok (.line text), m)
  | .status => (.ok (.status m.report), m)
  | .calibrate pin => replied (m.calibrate pin)
  | .shutdown =>
    replied ("ok shutting down",
      { m with shutdownRequested := true, stopRequested := true, startRequested := false })

end Machine

end Winding

import Winding.Execution.Executor
import Winding.Proofs.Planning.Sides
import Winding.Proofs.Planning.Strokes

/-!
# Manual moves

There are four moves that can be asked of an executor outside any recipe (`ManualMove`). What is
planned for each of them is said once (`ManualMove.Plans`): one primitive, and the pose after it. A
move that is carried out is that primitive on the queue with that pose adopted, and nothing else
(`ManualMove.request_eq_ok`).
-/

namespace Winding

variable {R : Type}

namespace Executor

variable {x x' : Executor R} {q q' : Queue R} {p a : Primitive R}

theorem unlessRunning_eq_ok {α : Type} {rest : Except (ExecutorError R) α} {v : α}
    (h : x.unlessRunning rest = .ok v) : rest = .ok v := by
  unfold unlessRunning at h
  split at h
  · cases h
  · exact h

theorem queueManual_eq_ok {pose : Pose R} (h : x.queueManual q pose a = .ok (p, x', q')) :
    p = a ∧ x' = { x with pose := pose } ∧ q.push none a = .ok q' := by
  unfold queueManual at h
  split at h
  · cases h
  · next pushed =>
    cases h
    exact ⟨rfl, rfl, pushed⟩

end Executor

/-- One move outside any recipe. -/
inductive ManualMove (R : Type) where
  | jog (target : Location R) (velocity : Option R)
  | head (side : Side)
  | latch (side : Side)
  /-- To a pin of the recipe's layer. -/
  | visit (pin : Pin)

variable [Scalar R]

namespace ManualMove

/-- What comes of a move that is asked of an executor. -/
def request (x : Executor R) (q : Queue R) :
    ManualMove R → Except (ExecutorError R) (Primitive R × Executor R × Queue R)
  | .jog target velocity => x.jog q target velocity
  | .head side => x.moveHead q side
  | .latch side => x.moveLatch q side
  | .visit pin => x.seekPin q pin

/-- The primitive and the pose that are planned for a move. -/
inductive Plans (x : Executor R) : ManualMove R → Primitive R → Pose R → Prop
  | jog (target : Location R) (velocity : Option R) {pose : Pose R}
      (usable : Rates.usable (velocity.getD (x.context.rates.limits velocity).velocity) = true)
      (travelled : x.pose.travel x.context.envelope target = .ok pose) :
    Plans x (.jog target velocity) (.move target (x.context.rates.limits velocity))
      { pose with limits := x.context.rates.limits velocity }
  | head (side : Side) {z wire : R}
      (changed : x.pose.headChange x.context.envelope side = .ok (z, wire)) :
    Plans x (.head side) (.head side z) (x.pose.withHead side z)
  | latch (side : Side) : Plans x (.latch side) (.latch side) { x.pose with latch := side }
  | visit (pin : Pin) {s : Session R} {target : Location R} {pose : Pose R}
      (session : x.session = some s) (resolved : s.table.resolve pin = .ok target)
      (travelled : x.pose.travel x.context.envelope target = .ok pose) :
    Plans x (.visit pin) (.move target (x.context.rates.limits none))
      { pose with activePin := some pin }

variable {x x' : Executor R} {q q' : Queue R} {m : ManualMove R} {p : Primitive R} {pose : Pose R}

/-- What is planned for a move is queued on its own, and adopted. -/
theorem request_eq_ok (h : m.request x q = .ok (p, x', q')) :
    ∃ pose, m.Plans x p pose ∧ x' = { x with pose := pose } ∧ q.push none p = .ok q' := by
  cases m with
  | jog target velocity =>
    have h := Executor.unlessRunning_eq_ok h
    split at h
    · cases h
    · next accepted =>
      have usable := (Bool.and_eq_true_iff.mp (by simpa using accepted)).1
      obtain ⟨pose, travelled, queued⟩ := bind_eq_ok h
      obtain ⟨rfl, adopted⟩ := Executor.queueManual_eq_ok queued
      exact ⟨_, .jog target velocity usable (mapError_eq_ok travelled), adopted⟩
  | head side =>
    obtain ⟨⟨z, wire⟩, changed, queued⟩ := bind_eq_ok (Executor.unlessRunning_eq_ok h)
    obtain ⟨rfl, adopted⟩ := Executor.queueManual_eq_ok queued
    exact ⟨_, .head side (mapError_eq_ok changed), adopted⟩
  | latch side =>
    obtain ⟨rfl, adopted⟩ := Executor.queueManual_eq_ok (Executor.unlessRunning_eq_ok h)
    exact ⟨_, .latch side, adopted⟩
  | visit pin =>
    have h := Executor.unlessRunning_eq_ok h
    split at h
    · cases h
    · next s session =>
      obtain ⟨target, resolved, rest⟩ := bind_eq_ok h
      obtain ⟨pose, travelled, queued⟩ := bind_eq_ok rest
      obtain ⟨rfl, adopted⟩ := Executor.queueManual_eq_ok queued
      exact ⟨_, .visit pin session (mapError_eq_ok resolved) (mapError_eq_ok travelled), adopted⟩

namespace Plans

/-- The planned sides of the head and the latch are those after the primitive. -/
theorem sameSides (h : m.Plans x p pose) : pose.SameSides (x.pose.after p) := by
  cases h with
  | jog _ _ _ travelled | visit _ _ _ travelled =>
    have same := Pose.travel_sameSides travelled
    exact ⟨same.1, same.2⟩
  | head | latch => exact .refl _

/-- A manual move is a stroke from the pose, up to the pin and the limits of the pose. -/
theorem stroke (h : m.Plans x p pose) : ∃ (limits : Limits R) (plan : LinePlan R),
    LinePlan.Stroke x.context.envelope limits ⟨[], x.pose, Scalar.zero, false⟩ plan ∧
      plan.primitives = [p] ∧ pose.position = plan.pose.position := by
  cases h with
  | jog _ _ _ travelled | visit _ _ _ travelled => exact ⟨_, _, .move _ travelled, rfl, rfl⟩
  | head side changed => exact ⟨x.pose.limits, _, .head _ changed, rfl, rfl⟩
  | latch side => exact ⟨x.pose.limits, _, .latch _ side, rfl, rfl⟩

end Plans

end ManualMove

end Winding

import Winding.Proofs.Number.Exact
import Winding.Proofs.Planning.Sides
import Winding.Proofs.Planning.Strokes

/-!
# The wire of a line

Planning never pays wire back, and only primitives pay it out: a line takes no length below zero,
and a line without primitives takes none (`planLine_taut`).
-/

namespace Winding

variable {R : Type} [Scalar R]

/-- The wire of a plan is not below zero, and only primitives take any. -/
structure LinePlan.IsTaut (p : LinePlan R) : Prop where
  nonneg : Scalar.lt p.wire Scalar.zero = false
  empty : p.primitives = [] → p.wire = Scalar.zero

variable [ExactScalar R] {env : Envelope R} {limits : Limits R}

/-- The head pays wire out when it turns. -/
theorem Pose.headChange_nonneg {pose : Pose R} {side : Side} {z wire : R}
    (changed : pose.headChange env side = .ok (z, wire)) :
    Scalar.lt wire Scalar.zero = false := by
  obtain ⟨-, ⟨-, rfl⟩ | ⟨-, -, rfl⟩⟩ := headChange_eq_ok changed
  · exact ExactScalar.zero_nonneg
  · exact ExactScalar.abs_nonneg _

namespace LinePlan

variable {p p' : LinePlan R}

/-- Wire that is paid out with a primitive keeps a plan taut. -/
theorem IsTaut.draw (h : p.IsTaut) (a : Primitive R) (pose : Pose R) {wire : R}
    (nonneg : Scalar.lt wire Scalar.zero = false) : (p.draw a pose wire).IsTaut where
  nonneg := ExactScalar.add_nonneg h.nonneg nonneg
  empty none := absurd none (by simp [LinePlan.draw])

/-- A stroke keeps a plan taut. -/
theorem Stroke.taut (stroke : Stroke env limits p p') (h : p.IsTaut) : p'.IsTaut := by
  cases stroke with
  | aim => exact ⟨h.nonneg, h.empty⟩
  | move | seek => exact h.draw _ _ (ExactScalar.hypot_nonneg _ _)
  | head changed => exact h.draw _ _ (Pose.headChange_nonneg changed)
  | latch | dwell | pause => exact ⟨h.nonneg, fun none => absurd none (by simp)⟩

theorem Strokes.taut (strokes : Strokes env limits p p') (h : p.IsTaut) : p'.IsTaut := by
  induction strokes with
  | refl => exact h
  | tail _ stroke ih => exact stroke.taut ih

end LinePlan

/-- The plan of a line is taut. -/
theorem planLine_taut {context : PlanContext R} {table : Option (PinTable R)} {pose : Pose R}
    {line : Gcode.Line R} {plan : LinePlan R} (planned : planLine context table pose line = .ok plan) :
    plan.IsTaut :=
  (planLine_strokes planned).2.taut ⟨ExactScalar.zero_nonneg, fun _ => rfl⟩

end Winding

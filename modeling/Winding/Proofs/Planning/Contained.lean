import Winding.Proofs.Gcode.Feeds
import Winding.Proofs.Number.Ordered
import Winding.Proofs.Planning.Strokes

/-!
# Motion within the machine

Travel may end only at points that the bounds hold (`Bounds.Holds`), and it may run only at rates
that are usable and not above the greatest (`Limits.Within`). Both are checked before a primitive is
drawn: the target by `Pose.travel`, and the rates by the configuration, since capping at a usable
maximum swallows whatever is not a number (`Rates.limits_within`). So all that is planned for a line
stays within the machine (`planLine_contained`).
-/

namespace Winding

variable {R : Type} [Scalar R]

/-! ## Targets -/

/-- A point that is finite and in range on every axis. -/
structure Bounds.Holds (b : Bounds R) (p : Location R) : Prop where
  finite : ∀ axis, Scalar.isFinite (p.on axis) = true
  low : ∀ axis, Scalar.le (b.range axis).1 (p.on axis) = true
  high : ∀ axis, Scalar.le (p.on axis) (b.range axis).2 = true

theorem Bounds.contains_iff {b : Bounds R} {p : Location R} :
    b.contains p = true ↔ b.Holds p := by
  simp only [contains, Location.isFinite, Scalar.between, Axis.all, List.all_cons, List.all_nil,
    Bool.and_true, Bool.and_eq_true]
  constructor
  · rintro ⟨⟨⟨fx, fy⟩, fz⟩, ⟨lx, hx⟩, ⟨ly, hy⟩, lz, hz⟩
    exact ⟨Axis.rec fx fy fz, Axis.rec lx ly lz, Axis.rec hx hy hz⟩
  · rintro ⟨finite, low, high⟩
    exact ⟨⟨⟨finite .x, finite .y⟩, finite .z⟩, ⟨low .x, high .x⟩, ⟨low .y, high .y⟩, low .z,
      high .z⟩

theorem Pose.travel_holds {env : Envelope R} {pose pose' : Pose R} {target : Location R}
    (h : pose.travel env target = .ok pose') : env.bounds.Holds target := by
  unfold travel at h
  split at h
  · cases h
  · next contained =>
    rw [← Bounds.contains_iff]
    simpa using contained

theorem Envelope.make_eq_ok {bounds : Bounds R} {transfer : TransferBox R} {head : HeadDepths R}
    {env : Envelope R} (h : make bounds transfer head = .ok env) :
    env = ⟨bounds, transfer, head⟩ := by
  obtain ⟨_, -, h⟩ := bind_eq_ok h
  obtain ⟨_, -, e⟩ := bind_eq_ok h
  cases e
  rfl

/-! ## Rates -/

/-- A rate that is finite, above zero and not above a maximum. -/
structure Rates.Safe (v maximum : R) : Prop where
  finite : Scalar.isFinite v = true
  pos : Scalar.lt Scalar.zero v = true
  le : Scalar.le v maximum = true

/-- Limits that are safe in every quantity. -/
structure Limits.Within (l : Limits R) (r : Rates R) : Prop where
  velocity : Rates.Safe l.velocity r.maxVelocity
  acceleration : Rates.Safe l.acceleration r.maxAcceleration
  deceleration : Rates.Safe l.deceleration r.maxDeceleration

theorem Limits.Within.isValid {l : Limits R} {r : Rates R} (h : l.Within r) :
    l.isValid = true := by
  obtain ⟨v, a, d⟩ := h
  simp [Limits.isValid, Scalar.positive, v.finite, v.pos, a.finite, a.pos, d.finite, d.pos]

namespace Rates

variable {r : Rates R} {feed : Option R}

theorem check_eq_ok {q : Quantity} {default maximum : R} (h : check q default maximum = .ok ()) :
    usable default = true ∧ usable maximum = true := by
  unfold check at h
  split at h
  · cases h
  · next usable =>
    simpa using usable

theorem isFinite_of_usable {v : R} (h : usable v = true) : Scalar.isFinite v = true :=
  (Bool.and_eq_true_iff.mp h).1

theorem positive_of_usable {v : R} (h : usable v = true) : Scalar.positive v = true :=
  (Bool.and_eq_true_iff.mp h).2

/-- Each default and each maximum of checked rates is usable. -/
structure Usable (r : Rates R) : Prop where
  velocity : usable r.velocity = true ∧ usable r.maxVelocity = true
  acceleration : usable r.acceleration = true ∧ usable r.maxAcceleration = true
  deceleration : usable r.deceleration = true ∧ usable r.maxDeceleration = true

theorem usable_of_validate (h : r.validate = .ok ()) : r.Usable := by
  obtain ⟨⟨⟩, velocity, h⟩ := bind_eq_ok h
  obtain ⟨⟨⟩, acceleration, deceleration⟩ := bind_eq_ok h
  exact ⟨check_eq_ok velocity, check_eq_ok acceleration, check_eq_ok deceleration⟩

variable [OrderedScalar R]

open OrderedScalar

/-- A rate capped at a usable maximum is safe, unless it is a number that is not above zero. -/
theorem min_safe {v maximum : R} (usable : usable maximum = true)
    (above : Scalar.isNaN v = false → Scalar.positive v = true) :
    Safe (Scalar.min v maximum) maximum := by
  have finite := isFinite_of_usable usable
  have ⟨finite', pos'⟩ := Scalar.min_usable finite (positive_of_usable usable) above
  exact ⟨finite', pos', Scalar.min_le v finite⟩

/-- An accepted feed is above zero, unless it is no number. -/
theorem positive_of_accepted (accepted : Gcode.FeedAccepted feed) :
    ∀ f ∈ feed, Scalar.isNaN f = false → Scalar.positive f = true := by
  intro f hf number
  have zero : Scalar.isNaN (Scalar.zero : R) = false := isNaN_of_isFinite _ isFinite_zero
  exact lt_of_not_le _ f zero number (accepted f hf)

theorem limits_within (usable : r.Usable)
    (above : ∀ f ∈ feed, Scalar.isNaN f = false → Scalar.positive f = true) :
    (r.limits feed).Within r where
  velocity := by
    refine min_safe usable.velocity.2 fun number => ?_
    cases feed with
    | none => exact positive_of_usable usable.velocity.1
    | some f => exact above f rfl number
  acceleration := min_safe usable.acceleration.2 fun _ => positive_of_usable usable.acceleration.1
  deceleration := min_safe usable.deceleration.2 fun _ => positive_of_usable usable.deceleration.1

end Rates

/-! ## Plans -/

/-- A primitive whose target, if it travels, is in bounds, and whose limits are safe. -/
def Primitive.Contained (b : Bounds R) (r : Rates R) : Primitive R → Prop
  | .move target limits | .seek _ target limits => b.Holds target ∧ limits.Within r
  | .latch _ | .head _ _ | .dwell _ | .pause => True

/-- A stroke adds a contained primitive or none. -/
theorem LinePlan.Stroke.contained {env : Envelope R} {limits : Limits R} {r : Rates R}
    {p p' : LinePlan R} (within : limits.Within r) (stroke : Stroke env limits p p')
    (h : ∀ a ∈ p.primitives, a.Contained env.bounds r) :
    ∀ a ∈ p'.primitives, a.Contained env.bounds r := by
  have add {b : Primitive R} (hb : b.Contained env.bounds r) :
      ∀ a ∈ p.primitives ++ [b], a.Contained env.bounds r := by
    rintro a ha
    rcases List.mem_append.mp ha with old | new
    · exact h a old
    · rwa [List.mem_singleton.mp new]
  cases stroke with
  | aim => exact h
  | move travelled => exact add ⟨Pose.travel_holds travelled, within⟩
  | seek edge travelled => exact add ⟨Pose.travel_holds travelled, within⟩
  | head | latch | dwell | pause => exact add trivial

theorem LinePlan.Strokes.contained {env : Envelope R} {limits : Limits R} {r : Rates R}
    {p p' : LinePlan R} (within : limits.Within r) (strokes : Strokes env limits p p')
    (h : ∀ a ∈ p.primitives, a.Contained env.bounds r) :
    ∀ a ∈ p'.primitives, a.Contained env.bounds r := by
  induction strokes with
  | refl => exact h
  | tail _ stroke ih => exact stroke.contained within ih

/-- All that is planned for a line with safe limits stays within the machine. -/
theorem planLine_contained {context : PlanContext R} {table : Option (PinTable R)} {pose : Pose R}
    {line : Gcode.Line R} {plan : LinePlan R}
    (within : (context.rates.limits line.feed).Within context.rates)
    (planned : planLine context table pose line = .ok plan) :
    ∀ a ∈ plan.primitives, a.Contained context.envelope.bounds context.rates :=
  (planLine_strokes planned).2.contained within nofun

end Winding

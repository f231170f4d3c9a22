import Mathlib.Logic.Relation
import Winding.Planning.Line
import Winding.Proofs.Basic

/-!
# Strokes of a plan

A line is planned stroke by stroke: each stroke adds one primitive, with the change of the pose and
the wire that go with it, or names a pin (`LinePlan.Stroke`). Whatever a line asks for, its plan is
a chain of strokes from its pose, at the limits of the line (`planLine_strokes`), and planning fails
for its limits only before the first stroke (`planLine_refusal`).
-/

namespace Winding

variable {R : Type} [Scalar R]

namespace LinePlan

/-- A plan with one more primitive, which takes wire and leads to a pose. -/
def draw (p : LinePlan R) (a : Primitive R) (pose : Pose R) (wire : R) : LinePlan R :=
  { p with primitives := p.primitives ++ [a], pose := pose, wire := p.wire + wire }

/-- One change of a plan. -/
inductive Stroke (env : Envelope R) (limits : Limits R) : LinePlan R → LinePlan R → Prop
  | aim (p : LinePlan R) (pin : Pin) :
    Stroke env limits p { p with pose := { p.pose with activePin := some pin } }
  | move (p : LinePlan R) {target : Location R} {pose : Pose R}
      (travelled : p.pose.travel env target = .ok pose) :
    Stroke env limits p
      (p.draw (.move target limits) pose (p.pose.position.distanceXY target))
  | seek (p : LinePlan R) (edge : TransferEdge) {target : Location R} {pose : Pose R}
      (travelled : p.pose.travel env target = .ok pose) :
    Stroke env limits p
      (p.draw (.seek edge target limits) pose (p.pose.position.distanceXY target))
  | head (p : LinePlan R) {side : Side} {z wire : R}
      (changed : p.pose.headChange env side = .ok (z, wire)) :
    Stroke env limits p (p.draw (.head side z) (p.pose.withHead side z) wire)
  | latch (p : LinePlan R) (side : Side) :
    Stroke env limits p
      { p with
        primitives := p.primitives ++ [.latch side]
        pose := { p.pose with latch := side } }
  | dwell (p : LinePlan R) (ms : Nat) :
    Stroke env limits p { p with primitives := p.primitives ++ [.dwell ms] }
  | pause (p : LinePlan R) :
    Stroke env limits p { p with primitives := p.primitives ++ [.pause], pauses := true }

/-- Any number of strokes. -/
abbrev Strokes (env : Envelope R) (limits : Limits R) : LinePlan R → LinePlan R → Prop :=
  Relation.ReflTransGen (Stroke env limits)

end LinePlan

namespace Planning.Outline

open LinePlan

variable {env : Envelope R} {table : Option (PinTable R)} {o o' : Outline R}

/-- The second outline comes of the first by strokes at its limits. -/
def Draws (env : Envelope R) (o o' : Outline R) : Prop :=
  o'.limits = o.limits ∧ Strokes env o.limits o.plan o'.plan

namespace Draws

/-- Only what waits is different. -/
theorem of_same (limits : o'.limits = o.limits) (plan : o'.plan = o.plan) : Draws env o o' :=
  ⟨limits, plan ▸ .refl⟩

theorem of_stroke (limits : o'.limits = o.limits) (stroke : Stroke env o.limits o.plan o'.plan) :
    Draws env o o' :=
  ⟨limits, .single stroke⟩

theorem trans {o₁ o₂ o₃ : Outline R} (h : Draws env o₁ o₂) (h' : Draws env o₂ o₃) :
    Draws env o₁ o₃ := by
  obtain ⟨limits, strokes⟩ := h
  obtain ⟨limits', strokes'⟩ := h'
  rw [limits] at strokes'
  exact ⟨limits'.trans limits, strokes.trans strokes'⟩

end Draws

/-! ## What waits is drawn -/

theorem flushSeek_draws (h : o.flushSeek env = .ok o') : Draws env o o' := by
  unfold flushSeek at h
  split at h
  · cases h
    exact .of_same rfl rfl
  · obtain ⟨pose, travelled, e⟩ := bind_eq_ok h
    cases e
    exact .of_stroke rfl (.seek o.plan _ travelled)

theorem flush_draws (h : o.flush env = .ok o') : Draws env o o' := by
  obtain ⟨o₁, sought, e⟩ := bind_eq_ok h
  have seeks := flushSeek_draws sought
  split at e
  · cases e
    exact seeks
  · simp only at e
    split at e
    · cases e
      exact seeks.trans (.of_same rfl rfl)
    · obtain ⟨pose, travelled, e⟩ := bind_eq_ok e
      cases e
      exact seeks.trans (.of_stroke rfl (.move o₁.plan travelled))

/-! ## What a command draws -/

theorem aim_draws (o : Outline R) (t : Gcode.Target R) : Draws env o (o.aim t) := by
  unfold aim
  split
  · exact .of_same rfl rfl
  · exact .of_same rfl rfl

theorem aimAtPin_draws {front back : Option Nat} {dx dy : R}
    (h : o.aimAtPin table front back dx dy = .ok o') : Draws env o o' := by
  unfold aimAtPin at h
  split at h
  · cases h
  · split at h
    · cases h
    · cases h
      exact .of_same rfl rfl
    · cases h
      exact .of_stroke rfl (.aim o.plan _)

theorem clip_draws (o : Outline R) (box : TransferBox R) : Draws env o (o.clip box) := by
  unfold clip
  split
  · exact .of_same rfl rfl
  · exact .of_same rfl rfl

theorem startSeek_draws {edge : TransferEdge} (h : o.startSeek env edge = .ok o') :
    Draws env o o' := by
  unfold startSeek at h
  split at h
  · cases h
  · split at h
    · cases h
    · cases h
      exact .of_same rfl rfl

theorem moveHead_draws {side : Side} (h : o.moveHead env side = .ok o') : Draws env o o' := by
  obtain ⟨⟨z, wire⟩, changed, e⟩ := bind_eq_ok h
  cases e
  exact .of_stroke rfl (.head o.plan changed)

theorem apply_draws {c : Gcode.Command R} (h : o.apply env table c = .ok o') :
    Draws env o o' := by
  cases c with
  | move target rapid =>
    obtain ⟨o₁, flushed, e⟩ := bind_eq_ok h
    cases e
    exact (flushSeek_draws flushed).trans (aim_draws o₁ target)
  | pin front back dx dy =>
    obtain ⟨o₁, flushed, e⟩ := bind_eq_ok h
    exact (flushSeek_draws flushed).trans (aimAtPin_draws e)
  | clip =>
    cases h
    exact clip_draws o env.transfer
  | seek edge =>
    obtain ⟨o₁, flushed, e⟩ := bind_eq_ok h
    exact (flush_draws flushed).trans (startSeek_draws e)
  | head side =>
    obtain ⟨o₁, flushed, e⟩ := bind_eq_ok h
    exact (flush_draws flushed).trans (moveHead_draws e)
  | latch side =>
    obtain ⟨o₁, flushed, e⟩ := bind_eq_ok h
    cases e
    exact (flush_draws flushed).trans (.of_stroke rfl (.latch o₁.plan side))
  | delay ms =>
    obtain ⟨o₁, flushed, e⟩ := bind_eq_ok h
    cases e
    exact (flush_draws flushed).trans (.of_stroke rfl (.dwell o₁.plan ms))
  | pause =>
    obtain ⟨o₁, flushed, e⟩ := bind_eq_ok h
    cases e
    exact (flush_draws flushed).trans (.of_stroke rfl (.pause o₁.plan))

theorem foldlM_apply_draws {cs : List (Gcode.Command R)}
    (h : cs.foldlM (apply env table) o = .ok o') : Draws env o o' :=
  foldlM_keeps (P := Draws env o) (fun _ _ _ _ draws first => draws.trans (apply_draws first))
    (.of_same rfl rfl) h

end Planning.Outline

/-- A line that can be planned has usable limits, and its plan is a chain of strokes. -/
theorem planLine_strokes {context : PlanContext R} {table : Option (PinTable R)} {pose : Pose R}
    {line : Gcode.Line R} {plan : LinePlan R}
    (planned : planLine context table pose line = .ok plan) :
    (context.rates.limits line.feed).isValid = true ∧
      LinePlan.Strokes context.envelope (context.rates.limits line.feed)
        ⟨[], { pose with limits := context.rates.limits line.feed }, Scalar.zero, false⟩ plan := by
  unfold planLine at planned
  simp only at planned
  split at planned
  · cases planned
  · next valid =>
    obtain ⟨o, applied, planned⟩ := bind_eq_ok planned
    obtain ⟨o', flushed, e⟩ := bind_eq_ok planned
    cases e
    have draws := (Planning.Outline.foldlM_apply_draws applied).trans
      (Planning.Outline.flush_draws flushed)
    exact ⟨by simpa using valid, draws.2⟩

/-! ## Refusals -/

/-- Whether motion was refused for its limits. -/
def PlanError.isInvalidLimits : PlanError R → Bool
  | .invalidLimits _ => true
  | _ => false

theorem Pose.travel_refusal {env : Envelope R} {pose : Pose R} {target : Location R}
    {e : PlanError R} (h : pose.travel env target = .error e) : e = .outOfBounds target := by
  unfold travel at h
  split at h
  · exact (Except.error.inj h).symm
  · cases h

theorem Pose.headChange_refusal {env : Envelope R} {pose : Pose R} {side : Side}
    {e : PlanError R} (h : pose.headChange env side = .error e) :
    e = .notInTransferArea pose.position := by
  unfold headChange at h
  simp only at h
  split at h
  · cases h
  · split at h
    · exact (Except.error.inj h).symm
    · cases h

namespace Planning.Outline

/-- What a command can be refused for: travel out of the bounds, or what the command itself needs. -/
inductive Refuses (env : Envelope R) (o : Outline R) : Gcode.Command R → PlanError R → Prop
  | bounds (c : Gcode.Command R) (target : Location R) : Refuses env o c (.outOfBounds target)
  | table (front back : Option Nat) (dx dy : R) : Refuses env o (.pin front back dx dy) .noRecipe
  | calibration (front back : Option Nat) (dx dy : R) (e : CalibrationError) :
    Refuses env o (.pin front back dx dy) (.calibration e)
  | seek (edge : TransferEdge) (e : SeekError) : Refuses env o (.seek edge) (.seek e)
  /-- The head cannot be moved from where the machine is once all that waited was travelled. -/
  | head (side : Side) {o' : Outline R} (flushed : o.flush env = .ok o')
      (refused : ∃ e, o'.plan.pose.headChange env side = .error e) :
    Refuses env o (.head side) (.notInTransferArea o'.plan.pose.position)

variable {env : Envelope R} {table : Option (PinTable R)} {o : Outline R} {e : PlanError R}

theorem travel_refusal {target : Location R} {p : Primitive R}
    (h : o.travel env target p = .error e) : e = .outOfBounds target := by
  rcases bind_eq_error h with refused | ⟨pose, -, done⟩
  · exact Pose.travel_refusal refused
  · cases done

theorem flushSeek_refusal (h : o.flushSeek env = .error e) : ∃ target, e = .outOfBounds target := by
  unfold flushSeek at h
  split at h
  · cases h
  · exact ⟨_, travel_refusal h⟩

theorem flush_refusal (h : o.flush env = .error e) : ∃ target, e = .outOfBounds target := by
  rcases bind_eq_error h with refused | ⟨o₁, -, rest⟩
  · exact flushSeek_refusal refused
  · split at rest
    · cases rest
    · simp only at rest
      split at rest
      · cases rest
      · exact ⟨_, travel_refusal rest⟩

theorem aimAtPin_refusal {o' : Outline R} {front back : Option Nat} {dx dy : R}
    (h : o.aimAtPin table front back dx dy = .error e) :
    Refuses env o' (.pin front back dx dy) e := by
  unfold aimAtPin at h
  split at h
  · cases h
    exact .table ..
  · split at h
    · cases h
      exact .calibration ..
    · cases h
    · cases h

theorem startSeek_refusal {o' : Outline R} {edge : TransferEdge}
    (h : o.startSeek env edge = .error e) : Refuses env o' (.seek edge) e := by
  unfold startSeek at h
  split at h
  · cases h
    exact .seek ..
  · split at h
    · cases h
      exact .seek ..
    · cases h

theorem moveHead_refusal {side : Side} (h : o.moveHead env side = .error e) :
    o.plan.pose.headChange env side = .error e := by
  rcases bind_eq_error h with refused | ⟨⟨z, wire⟩, -, done⟩
  · exact refused
  · cases done

theorem apply_refusal {c : Gcode.Command R} (h : o.apply env table c = .error e) :
    Refuses env o c e := by
  have outside {c : Gcode.Command R} (out : ∃ target, e = .outOfBounds target) :
      Refuses env o c e := by
    obtain ⟨target, rfl⟩ := out
    exact .bounds c target
  cases c with
  | clip => cases h
  | move target rapid =>
    rcases bind_eq_error h with refused | ⟨o₁, -, done⟩
    · exact outside (flushSeek_refusal refused)
    · cases done
  | pin front back dx dy =>
    rcases bind_eq_error h with refused | ⟨o₁, -, rest⟩
    · exact outside (flushSeek_refusal refused)
    · exact aimAtPin_refusal rest
  | seek edge =>
    rcases bind_eq_error h with refused | ⟨o₁, -, rest⟩
    · exact outside (flush_refusal refused)
    · exact startSeek_refusal rest
  | head side =>
    rcases bind_eq_error h with refused | ⟨o₁, flushed, rest⟩
    · exact outside (flush_refusal refused)
    · have refused := moveHead_refusal rest
      obtain rfl := Pose.headChange_refusal refused
      exact .head side flushed ⟨_, refused⟩
  | latch | delay | pause =>
    rcases bind_eq_error h with refused | ⟨o₁, -, done⟩
    · exact outside (flush_refusal refused)
    · cases done

end Planning.Outline

/-- A line is refused for its limits, or for one of its commands, or the last flush leads out of
bounds. -/
theorem planLine_eq_error {context : PlanContext R} {table : Option (PinTable R)} {pose : Pose R}
    {line : Gcode.Line R} {e : PlanError R}
    (refused : planLine context table pose line = .error e) :
    let limits := context.rates.limits line.feed
    limits.isValid = false ∧ e = .invalidLimits limits.velocity ∨
      limits.isValid = true ∧
        (line.commands.foldlM (Planning.Outline.apply context.envelope table)
            ⟨⟨[], { pose with limits := limits }, Scalar.zero, false⟩, limits, none, none⟩ =
              .error e ∨
          ∃ target, e = .outOfBounds target) := by
  unfold planLine at refused
  simp only at refused
  split at refused
  · next invalid =>
    cases refused
    exact .inl ⟨by simpa using invalid, rfl⟩
  · next valid =>
    refine .inr ⟨by simpa using valid, ?_⟩
    rcases bind_eq_error refused with applied | ⟨o, -, rest⟩
    · exact .inl applied
    · rcases bind_eq_error rest with flushed | ⟨o', -, done⟩
      · exact .inr (Planning.Outline.flush_refusal flushed)
      · cases done

/-- Only a line whose limits are not usable is refused for its limits. -/
theorem planLine_refusal {context : PlanContext R} {table : Option (PinTable R)} {pose : Pose R}
    {line : Gcode.Line R} {e : PlanError R}
    (usable : (context.rates.limits line.feed).isValid = true)
    (refused : planLine context table pose line = .error e) : e.isInvalidLimits = false := by
  rcases planLine_eq_error refused with ⟨invalid, -⟩ | ⟨-, applied | ⟨target, rfl⟩⟩
  · cases invalid.symm.trans usable
  · obtain ⟨before, c, after, o, -, -, refused⟩ := foldlM_eq_error_iff.mp applied
    cases Planning.Outline.apply_refusal refused with
    | bounds | table | calibration | seek | head => rfl
  · rfl

end Winding

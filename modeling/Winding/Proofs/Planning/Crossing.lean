import Winding.Proofs.Geometry.Intercept
import Winding.Proofs.Planning.Replay

/-!
# Where the head crosses the frame

The head is taken through the frame only within the window of a line of the transfer box. What
decides is the pose at the head move itself, once all that was planned before it has run: in the plan
of a line every head move that crosses starts in the window (`planLine_crosses`), and a line is
refused for a crossing exactly when the commands before a head move can be planned and lead to a pose
from which it would cross outside the windows (`planLine_eq_crossing_error`).
-/

namespace Winding

variable {R : Type} [Scalar R]

/-- A point is within the window of a line of the box. -/
def TransferBox.InWindow (b : TransferBox R) (p : Location R) : Prop :=
  ∃ line : BoxLine, Scalar.le (Scalar.abs (line.coordinate p - b.place line)) b.window = true

theorem TransferBox.inArea_iff (b : TransferBox R) (p : Location R) :
    b.inArea p = true ↔ b.InWindow p := by
  unfold inArea nearLine
  simp only [Bool.or_eq_true]
  constructor
  · rintro (((top | bottom) | left) | right)
    · exact ⟨.top, top⟩
    · exact ⟨.bottom, bottom⟩
    · exact ⟨.left, left⟩
    · exact ⟨.right, right⟩
  · rintro ⟨line, near⟩
    cases line with
    | top => exact .inl (.inl (.inl near))
    | bottom => exact .inl (.inl (.inr near))
    | left => exact .inl (.inr near)
    | right => exact .inr near

namespace Pose

variable {box : TransferBox R} {pose : Pose R} {side : Side} {ps : List (Primitive R)}

/-- A move of the head to a side, from a pose, crosses the frame outside the windows of a box. -/
def CrossesOutside (box : TransferBox R) (pose : Pose R) (side : Side) : Prop :=
  side.crosses pose.head = true ∧ ¬box.InWindow pose.position

/-- A head move is refused exactly when it crosses outside the windows. -/
theorem headChange_eq_error_iff {env : Envelope R} {e : PlanError R} :
    pose.headChange env side = .error e ↔
      pose.CrossesOutside env.transfer side ∧ e = .notInTransferArea pose.position := by
  have outside : pose.CrossesOutside env.transfer side ↔
      ∃ e, pose.headChange env side = .error e := by
    rw [headChange_eq_error, CrossesOutside, ← TransferBox.inArea_iff, Bool.not_eq_true]
  rw [outside]
  constructor
  · intro refused
    exact ⟨⟨e, refused⟩, headChange_refusal refused⟩
  · rintro ⟨⟨e', refused⟩, rfl⟩
    exact headChange_refusal refused ▸ refused

/-- No head move among some primitives crosses outside the windows of a box, each one taken from the
pose that the primitives ahead of it lead to. -/
def CrossesWithin (box : TransferBox R) (pose : Pose R) (ps : List (Primitive R)) : Prop :=
  ∀ before side z after, ps = before ++ .head side z :: after →
    ¬(pose.afterAll before).CrossesOutside box side

theorem CrossesWithin.nil : pose.CrossesWithin box [] := by
  intro before side z after e
  exact absurd e.symm (List.append_ne_nil_of_right_ne_nil _ (List.cons_ne_nil _ _))

theorem CrossesWithin.concat (h : pose.CrossesWithin box ps) {a : Primitive R}
    (last : ∀ side z, a = .head side z → ¬(pose.afterAll ps).CrossesOutside box side) :
    pose.CrossesWithin box (ps ++ [a]) := by
  intro before side z after e
  rcases concat_eq_append_cons e with ⟨-, rfl, rfl⟩ | ⟨rest, -, inside⟩
  · exact last side z rfl
  · exact h before side z rest inside

/-- The pins and the limits do not matter to a crossing. -/
theorem SameMotion.crossesOutside {p p' : Pose R} (h : p.SameMotion p') :
    p.CrossesOutside box side ↔ p'.CrossesOutside box side := by
  rw [CrossesOutside, CrossesOutside, h.position, h.head]

end Pose

namespace LinePlan

variable {env : Envelope R} {limits : Limits R} {pose : Pose R} {p p' : LinePlan R}

/-- The primitives of a plan lead to its pose, and cross the frame within the windows only. -/
structure Crosses (box : TransferBox R) (pose : Pose R) (p : LinePlan R) : Prop where
  follows : p.Follows pose
  within : pose.CrossesWithin box p.primitives

theorem Stroke.crosses (stroke : Stroke env limits p p') (h : p.Crosses env.transfer pose) :
    p'.Crosses env.transfer pose := by
  rcases stroke.cases_extends with ⟨pin, rfl⟩ | ⟨a, more⟩
  · exact ⟨(Pose.SameMotion.of_pin p.pose pin).trans h.follows, h.within⟩
  · refine ⟨more.follows h.follows, ?_⟩
    rw [more.primitives]
    refine h.within.concat fun side z e outside => ?_
    -- The pose that was checked is the one that the primitives so far lead to.
    obtain ⟨crosses, out⟩ := h.follows.crossesOutside.mpr outside
    exact out ((TransferBox.inArea_iff _ _).mp (more.crossing side z e crosses))

theorem Strokes.crosses (strokes : Strokes env limits p p') (h : p.Crosses env.transfer pose) :
    p'.Crosses env.transfer pose := by
  induction strokes with
  | refl => exact h
  | tail _ stroke ih => exact stroke.crosses ih

end LinePlan

variable {context : PlanContext R} {table : Option (PinTable R)} {pose : Pose R}
  {line : Gcode.Line R}

/-- In the plan of a line the head crosses the frame only within the windows. -/
theorem planLine_crosses {plan : LinePlan R} (planned : planLine context table pose line = .ok plan) :
    plan.Crosses context.envelope.transfer pose :=
  (planLine_strokes planned).2.crosses ⟨⟨rfl, rfl, rfl, rfl⟩, .nil⟩

/-! ## Refusals -/

namespace Planning.Outline

/-- The outline of a line before its first command. -/
def start (pose : Pose R) (limits : Limits R) : Outline R :=
  ⟨⟨[], { pose with limits := limits }, Scalar.zero, false⟩, limits, none, none⟩

/-- Only a head move is refused for a crossing, once all that waited was travelled. -/
theorem apply_eq_crossing_error {env : Envelope R} {table : Option (PinTable R)} {o : Outline R}
    {c : Gcode.Command R} {at_ : Location R} :
    o.apply env table c = .error (.notInTransferArea at_) ↔
      ∃ side o', c = .head side ∧ o.flush env = .ok o' ∧
        o'.plan.pose.CrossesOutside env.transfer side ∧ at_ = o'.plan.pose.position := by
  constructor
  · intro refused
    have refuses := apply_refusal refused
    generalize e : PlanError.notInTransferArea at_ = error at refuses
    cases refuses with
    | bounds | table | calibration | seek => cases e
    | @head side o' flushed turned =>
      obtain ⟨_, turned⟩ := turned
      exact ⟨side, o', rfl, flushed, (Pose.headChange_eq_error_iff.mp turned).1,
        PlanError.notInTransferArea.inj e⟩
  · rintro ⟨side, o', rfl, flushed, outside, rfl⟩
    have turned := Pose.headChange_eq_error_iff.mpr ⟨outside, rfl⟩
    simp only [apply, moveHead, flushed, turned, bind, Except.bind]

end Planning.Outline

open Planning

/-- The plan of a line is the outline that its commands and a last flush lead to. -/
theorem planLine_eq_ok_iff {plan : LinePlan R} : planLine context table pose line = .ok plan ↔
    (context.rates.limits line.feed).isValid = true ∧
      ∃ o o', line.commands.foldlM (Outline.apply context.envelope table)
          (.start pose (context.rates.limits line.feed)) = .ok o ∧
        o.flush context.envelope = .ok o' ∧ o'.plan = plan := by
  unfold planLine
  simp only
  split
  · next invalid => exact ⟨nofun, fun h => absurd h.1 (by simpa using invalid)⟩
  · next valid =>
    constructor
    · intro planned
      obtain ⟨o, applied, rest⟩ := bind_eq_ok planned
      obtain ⟨o', flushed, done⟩ := bind_eq_ok rest
      exact ⟨by simpa using valid, o, o', applied, flushed, Except.ok.inj done⟩
    · rintro ⟨-, o, o', applied, flushed, rfl⟩
      unfold Outline.start at applied
      simp only [applied, flushed, bind, Except.bind]
      rfl

/-- A line is refused for a crossing by one of its commands. -/
theorem planLine_eq_command_error {at_ : Location R} :
    planLine context table pose line = .error (.notInTransferArea at_) ↔
      (context.rates.limits line.feed).isValid = true ∧
        line.commands.foldlM (Outline.apply context.envelope table)
          (.start pose (context.rates.limits line.feed)) = .error (.notInTransferArea at_) := by
  constructor
  · intro refused
    rcases planLine_eq_error refused with ⟨-, e⟩ | ⟨valid, applied | ⟨target, e⟩⟩
    · cases e
    · exact ⟨valid, applied⟩
    · cases e
  · rintro ⟨valid, applied⟩
    unfold Outline.start at applied
    unfold planLine
    simp only [valid, Bool.not_true, Bool.false_eq_true, if_false, applied, bind, Except.bind]

/-- A head move of the line would cross the frame outside the windows, from where the commands
before it lead. -/
def Gcode.Line.CrossesOutside (context : PlanContext R) (table : Option (PinTable R))
    (pose : Pose R) (line : Gcode.Line R) (at_ : Location R) : Prop :=
  ∃ before side after plan, line.commands = before ++ .head side :: after ∧
    planLine context table pose { line with commands := before } = .ok plan ∧
    (pose.afterAll plan.primitives).CrossesOutside context.envelope.transfer side ∧
    at_ = (pose.afterAll plan.primitives).position

/-- A line is refused for a crossing exactly when one of its head moves would cross outside the
windows. -/
theorem planLine_eq_crossing_error {at_ : Location R} :
    planLine context table pose line = .error (.notInTransferArea at_) ↔
      line.CrossesOutside context table pose at_ := by
  rw [planLine_eq_command_error, foldlM_eq_error_iff]
  constructor
  · rintro ⟨usable, before, c, after, o, split, applied, refused⟩
    obtain ⟨side, o', rfl, flushed, outside, rfl⟩ := Outline.apply_eq_crossing_error.mp refused
    have planned : planLine context table pose { line with commands := before } = .ok o'.plan :=
      planLine_eq_ok_iff.mpr ⟨usable, o, o', applied, flushed, rfl⟩
    have follows := (planLine_crosses planned).follows
    exact ⟨before, side, after, o'.plan, split, planned, follows.crossesOutside.mp outside,
      follows.position⟩
  · rintro ⟨before, side, after, plan, split, planned, outside, rfl⟩
    have follows := (planLine_crosses planned).follows
    obtain ⟨usable, o, o', applied, flushed, rfl⟩ := planLine_eq_ok_iff.mp planned
    exact ⟨usable, before, _, after, o, split, applied, Outline.apply_eq_crossing_error.mpr
      ⟨side, o', rfl, flushed, follows.crossesOutside.mpr outside, follows.position.symm⟩⟩

end Winding

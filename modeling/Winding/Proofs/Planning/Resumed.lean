import Winding.Planning.Line

/-!
# Planning from a pose that was lost in part

What a line makes of a pose depends on its position, on the side of the head and on the direction of
the last travel. Where only the position is known again (`Pose.Resumes`), a line is planned to the
same primitives whenever it is planned at all (`Resumes.planLine`). The side of the head only
decides whether the line is refused for a crossing outside the transfer area, and a seek without a
direction is refused.
-/

namespace Winding

variable {R : Type} [Scalar R]

/-- The second pose is the first, except that its head may be at another side if it was turned, and
that it may have no direction if the machine moved. Pins, limits and the latch do not count. -/
structure Pose.Resumes (turned moved : Prop) (p p' : Pose R) : Prop where
  position : p'.position = p.position
  head : p'.head = p.head ∨ turned
  direction : p'.direction = p.direction ∨ moved ∧ p'.direction = none

namespace Resumes

variable {turned moved : Prop} {α β : Type}

/-- Planning comes to results that are related, or to the same error. Only what the second pose lost
makes a difference: a seek that has no direction, and a crossing that is refused to one of them. -/
inductive Agree (turned moved : Prop) (rel : α → α → Prop) :
    Except (PlanError R) α → Except (PlanError R) α → Prop
  | ok {a a' : α} (same : rel a a') : Agree turned moved rel (.ok a) (.ok a')
  | refused (e : PlanError R) : Agree turned moved rel (.error e) (.error e)
  | undirected (lost : moved) (r : Except (PlanError R) α) :
    Agree turned moved rel r (.error (.seek .noDirection))
  | uncrossed (lost : turned) (at_ : Location R) (r : Except (PlanError R) α) :
    Agree turned moved rel (.error (.notInTransferArea at_)) r
  | crossed (lost : turned) (at_ : Location R) (r : Except (PlanError R) α) :
    Agree turned moved rel r (.error (.notInTransferArea at_))

omit [Scalar R] in
theorem Agree.bind {rel : α → α → Prop} {rel' : β → β → Prop} {a a' : Except (PlanError R) α}
    {f : α → Except (PlanError R) β} {f' : α → Except (PlanError R) β}
    (h : Agree turned moved rel a a')
    (next : ∀ v v', rel v v' → Agree turned moved rel' (f v) (f' v')) :
    Agree turned moved rel' (a >>= f) (a' >>= f') := by
  cases h with
  | ok same => exact next _ _ same
  | refused e => exact .refused e
  | undirected lost r => exact .undirected lost _
  | uncrossed lost at_ r => exact .uncrossed lost at_ _
  | crossed lost at_ r => exact .crossed lost at_ _

/-! ## Poses -/

variable {env : Envelope R} {p p' : Pose R}

theorem travel (h : p.Resumes turned moved p') (target : Location R) :
    Agree turned moved (Pose.Resumes turned moved) (p.travel env target)
      (p'.travel env target) := by
  simp only [Pose.travel, h.position]
  split
  · exact .refused _
  · refine .ok ⟨rfl, h.head, ?_⟩
    split
    · exact .inl rfl
    · exact h.direction

/-- The depth of the head does not depend on the side from which it comes. -/
theorem headChange (h : p.Resumes turned moved p') (side : Side) :
    Agree turned moved (fun c c' => c'.1 = c.1) (p.headChange env side)
      (p'.headChange env side) := by
  rcases h.head with same | lost
  · simp only [Pose.headChange, h.position, same]
    split
    · exact .ok rfl
    · split
      · exact .refused _
      · exact .ok rfl
  · unfold Pose.headChange
    split
    · split
      · exact .ok rfl
      · split
        · exact .crossed lost _ _
        · exact .ok rfl
    · split
      · exact .uncrossed lost _ _
      · split
        · exact .ok rfl
        · split
          · exact .crossed lost _ _
          · exact .ok rfl

/-! ## Plans -/

/-- The same primitives and pauses, from poses one of which resumes the other. -/
structure Plans (turned moved : Prop) (a a' : LinePlan R) : Prop where
  primitives : a'.primitives = a.primitives
  pauses : a'.pauses = a.pauses
  pose : a.pose.Resumes turned moved a'.pose

open Planning

/-- Outlines with such plans, in which the same travel waits. -/
structure Outlines (turned moved : Prop) (o o' : Outline R) : Prop where
  plan : Plans turned moved o.plan o'.plan
  limits : o'.limits = o.limits
  target : o'.target = o.target
  seek : o'.seek = o.seek

namespace Outlines

variable {table : Option (PinTable R)} {o o' : Outline R}

omit [Scalar R] in
theorem emit (h : Outlines turned moved o o') (a : Primitive R) :
    Outlines turned moved (o.emit a) (o'.emit a) :=
  ⟨⟨by simp only [Outline.emit, h.plan.primitives], h.plan.pauses, h.plan.pose⟩, h.limits, h.target,
    h.seek⟩

omit [Scalar R] in
theorem withPose (h : Outlines turned moved o o') {pose pose' : Pose R}
    (same : pose.Resumes turned moved pose') :
    Outlines turned moved (o.withPose pose) (o'.withPose pose') :=
  ⟨⟨h.plan.primitives, h.plan.pauses, same⟩, h.limits, h.target, h.seek⟩

theorem travel (h : Outlines turned moved o o') (target : Location R) (a : Primitive R) :
    Agree turned moved (Outlines turned moved) (o.travel env target a)
      (o'.travel env target a) := by
  refine (Resumes.travel h.plan.pose target).bind fun pose pose' same => .ok ?_
  refine emit ?_ a
  exact ⟨⟨h.plan.primitives, h.plan.pauses, same⟩, h.limits, h.target, h.seek⟩

theorem flushSeek (h : Outlines turned moved o o') :
    Agree turned moved (Outlines turned moved) (o.flushSeek env) (o'.flushSeek env) := by
  simp only [Outline.flushSeek, h.seek, h.limits]
  split
  · exact .ok h
  · refine travel ?_ _ _
    exact ⟨h.plan, rfl, h.target, rfl⟩

theorem flush (h : Outlines turned moved o o') :
    Agree turned moved (Outlines turned moved) (o.flush env) (o'.flush env) := by
  refine h.flushSeek.bind fun o₁ o₁' h₁ => ?_
  simp only [h₁.target, h₁.limits, h₁.plan.pose.position]
  split
  · exact .ok h₁
  · split
    · exact .ok ⟨h₁.plan, rfl, rfl, h₁.seek⟩
    · refine travel ?_ _ _
      exact ⟨h₁.plan, rfl, rfl, h₁.seek⟩

omit [Scalar R] in
theorem base (h : Outlines turned moved o o') : o'.base = o.base := by
  rw [Outline.base, Outline.base, h.target, h.plan.pose.position]

omit [Scalar R] in
theorem aim (h : Outlines turned moved o o') (t : Gcode.Target R) :
    Outlines turned moved (o.aim t) (o'.aim t) := by
  simp only [Outline.aim, h.base]
  split
  · exact h
  · exact ⟨h.plan, h.limits, rfl, h.seek⟩

theorem aimAtPin (h : Outlines turned moved o o') (front back : Option Nat) (dx dy : R) :
    Agree turned moved (Outlines turned moved) (o.aimAtPin table front back dx dy)
      (o'.aimAtPin table front back dx dy) := by
  unfold Outline.aimAtPin
  split
  · exact .refused _
  · split
    · exact .refused _
    · exact .ok h
    · have pose := h.plan.pose
      refine .ok ⟨⟨h.plan.primitives, h.plan.pauses, ?_⟩, h.limits, rfl, h.seek⟩
      exact ⟨pose.position, pose.head, pose.direction⟩

theorem clip (h : Outlines turned moved o o') (box : TransferBox R) :
    Outlines turned moved (o.clip box) (o'.clip box) := by
  simp only [Outline.clip, h.seek, h.base]
  split
  · exact ⟨h.plan, h.limits, h.target, rfl⟩
  · exact ⟨h.plan, h.limits, rfl, rfl⟩

/-- A seek needs the direction. -/
theorem startSeek (h : Outlines turned moved o o') (edge : TransferEdge) :
    Agree turned moved (Outlines turned moved) (o.startSeek env edge) (o'.startSeek env edge) := by
  have pose := h.plan.pose
  rcases pose.direction with same | ⟨lost, none⟩
  · simp only [Outline.startSeek, same, pose.position]
    split
    · exact .refused _
    · split
      · exact .refused _
      · exact .ok ⟨h.plan, h.limits, h.target, rfl⟩
  · have undirected : o'.startSeek env edge = .error (.seek .noDirection) := by
      rw [Outline.startSeek, none]
    rw [undirected]
    exact .undirected lost _

theorem moveHead (h : Outlines turned moved o o') (side : Side) :
    Agree turned moved (Outlines turned moved) (o.moveHead env side) (o'.moveHead env side) := by
  have pose := h.plan.pose
  refine (Resumes.headChange pose side).bind ?_
  rintro ⟨z', wire⟩ ⟨z, wire'⟩ same
  obtain rfl : z = z' := same
  have turns : (o.plan.pose.withHead side z).Resumes turned moved
      (o'.plan.pose.withHead side z) := by
    refine ⟨?_, .inl rfl, pose.direction⟩
    simp only [Pose.withHead, pose.position]
  have moved := (h.withPose turns).emit (.head side z)
  exact .ok ⟨⟨moved.plan.primitives, moved.plan.pauses, moved.plan.pose⟩, moved.limits,
    moved.target, moved.seek⟩

/-- A command agrees on outlines that agree. -/
theorem apply (h : Outlines turned moved o o') (c : Gcode.Command R) :
    Agree turned moved (Outlines turned moved) (o.apply env table c) (o'.apply env table c) := by
  cases c with
  | move target rapid => exact h.flushSeek.bind fun o o' h => .ok (h.aim target)
  | pin front back dx dy => exact h.flushSeek.bind fun o o' h => h.aimAtPin front back dx dy
  | clip => exact .ok (h.clip env.transfer)
  | seek edge => exact h.flush.bind fun o o' h => h.startSeek edge
  | head side => exact h.flush.bind fun o o' h => h.moveHead side
  | latch side =>
    refine h.flush.bind fun o o' h => ?_
    have pose := h.plan.pose
    refine .ok (emit (h.withPose ?_) (.latch side))
    exact ⟨pose.position, pose.head, pose.direction⟩
  | delay ms => exact h.flush.bind fun o o' h => .ok (h.emit (.dwell ms))
  | pause =>
    refine h.flush.bind fun o o' h => .ok (emit ?_ .pause)
    exact ⟨⟨h.plan.primitives, rfl, h.plan.pose⟩, h.limits, h.target, h.seek⟩

theorem foldlM_apply (h : Outlines turned moved o o') (cs : List (Gcode.Command R)) :
    Agree turned moved (Outlines turned moved) (cs.foldlM (Outline.apply env table) o)
      (cs.foldlM (Outline.apply env table) o') := by
  induction cs generalizing o o' with
  | nil => exact .ok h
  | cons c cs ih => exact (h.apply c).bind fun o o' h => ih h

end Outlines

/-- A line is planned alike, up to what was lost of the pose. -/
theorem planLine (h : p.Resumes turned moved p') (context : PlanContext R)
    (table : Option (PinTable R)) (line : Gcode.Line R) :
    Agree turned moved (Plans turned moved) (Winding.planLine context table p line)
      (Winding.planLine context table p' line) := by
  unfold Winding.planLine
  simp only
  split
  · exact .refused _
  · have start : Outlines turned moved
        ⟨⟨[], { p with limits := context.rates.limits line.feed }, Scalar.zero, false⟩,
          context.rates.limits line.feed, none, none⟩
        ⟨⟨[], { p' with limits := context.rates.limits line.feed }, Scalar.zero, false⟩,
          context.rates.limits line.feed, none, none⟩ :=
      ⟨⟨rfl, rfl, h.position, h.head, h.direction⟩, rfl, rfl, rfl⟩
    exact (start.foldlM_apply line.commands).bind fun o o' h =>
      h.flush.bind fun o o' h => .ok h.plan

end Resumes

end Winding

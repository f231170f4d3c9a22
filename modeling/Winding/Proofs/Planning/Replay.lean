import Winding.Proofs.Number.Lengths
import Winding.Proofs.Planning.Sides
import Winding.Proofs.Planning.Strokes

/-!
# A plan is what its primitives do

The pose that planning arrives at is the one that the primitives of the plan lead to, one after the
other, and the wire of the plan is the sum of what each of them takes (`Pose.pull?`). A plan of which
this holds replays (`LinePlan.Replays`): every stroke keeps it so, and the plan of a line does
(`planLine_replays`). Only the pin and the limits of the pose are not in the primitives.
-/

namespace Winding

variable {R : Type}

namespace Pose

/-- The machine is at the same point and turned the same way. -/
structure SameMotion (p p' : Pose R) : Prop where
  position : p.position = p'.position
  head : p.head = p'.head
  latch : p.latch = p'.latch
  direction : p.direction = p'.direction

variable {p p' p'' : Pose R}

theorem SameMotion.refl (p : Pose R) : p.SameMotion p := ⟨rfl, rfl, rfl, rfl⟩

theorem SameMotion.trans (h : p.SameMotion p') (h' : p'.SameMotion p'') : p.SameMotion p'' :=
  ⟨h.position.trans h'.position, h.head.trans h'.head, h.latch.trans h'.latch,
    h.direction.trans h'.direction⟩

/-- A pin that is named does not move the machine. -/
theorem SameMotion.of_pin (p : Pose R) (pin : Option Pin) :
    SameMotion { p with activePin := pin } p := ⟨rfl, rfl, rfl, rfl⟩

variable [Scalar R]

/-- A primitive has the same effect on the motion whatever the pin and the limits are. -/
theorem SameMotion.after (h : p.SameMotion p') (a : Primitive R) :
    (p.after a).SameMotion (p'.after a) := by
  cases a with
  | move | seek =>
    refine ⟨rfl, h.head, h.latch, ?_⟩
    simp only [Pose.after, h.position, h.direction]
  | latch side => exact ⟨h.position, h.head, rfl, h.direction⟩
  | head side z => exact ⟨congrArg (fun l => { l with z := z }) h.position, rfl, h.latch, h.direction⟩
  | dwell | pause => exact h

/-- Travel leads to where a move leads. -/
theorem eq_after_of_travel {env : Envelope R} {target : Location R} (limits : Limits R)
    (travelled : p.travel env target = .ok p') : p' = p.after (.move target limits) := by
  unfold travel at travelled
  split at travelled
  · cases travelled
  · exact (Except.ok.inj travelled).symm

/-! ## The wire of primitives -/

/-- The wire that a primitive takes, if it takes any: the way of a move or of a seek, and the way
through the frame of a head move that crosses it. -/
def pull? (depths : HeadDepths R) (p : Pose R) : Primitive R → Option R
  | .move target _ | .seek _ target _ => some (p.position.distanceXY target)
  | .head side _ =>
    if side.crosses p.head then some (Scalar.abs (depths.z side - depths.z p.head)) else none
  | .latch _ | .dwell _ | .pause => none

/-- The wire that each of some primitives takes, in their order. -/
def pulls (depths : HeadDepths R) (p : Pose R) : List (Primitive R) → List R
  | [] => []
  | a :: ps => (p.pull? depths a).toList ++ (p.after a).pulls depths ps

variable {depths : HeadDepths R}

theorem pulls_concat (p : Pose R) (ps : List (Primitive R)) (a : Primitive R) :
    p.pulls depths (ps ++ [a]) =
      p.pulls depths ps ++ ((p.afterAll ps).pull? depths a).toList := by
  induction ps generalizing p with
  | nil => exact List.append_nil _
  | cons b ps ih =>
    rw [List.cons_append, pulls, pulls, ih, List.append_assoc]
    rfl

theorem SameMotion.pull? (h : p.SameMotion p') (a : Primitive R) :
    p.pull? depths a = p'.pull? depths a := by
  cases a with
  | move | seek => simp only [Pose.pull?, h.position]
  | head => simp only [Pose.pull?, h.head]
  | latch | dwell | pause => rfl

theorem isLength_of_pull? {a : Primitive R} {length : R} (h : p.pull? depths a = some length) :
    Scalar.IsLength length := by
  cases a with
  | move | seek =>
    cases h
    exact .distance _ _
  | head =>
    simp only [Pose.pull?] at h
    split at h
    · cases h
      exact .size _
    · cases h
  | latch | dwell | pause => cases h

theorem isLength_of_mem_pulls {ps : List (Primitive R)} :
    ∀ length ∈ p.pulls depths ps, Scalar.IsLength length := by
  induction ps generalizing p with
  | nil => exact nofun
  | cons a ps ih =>
    intro length mem
    rcases List.mem_append.mp mem with first | rest
    · exact isLength_of_pull? (Option.mem_toList.mp first)
    · exact ih length rest

end Pose

variable [Scalar R]

theorem Scalar.sum_concat (lengths : List R) (a : R) :
    Scalar.sum (lengths ++ [a]) = Scalar.sum lengths + a := by
  rw [Scalar.sum, List.foldl_append]
  rfl

namespace LinePlan

variable {env : Envelope R} {limits : Limits R} {pose : Pose R} {p p' : LinePlan R}

/-! ## What a stroke adds -/

/-- The second plan is the first one with a primitive at its end, carried out. Zero may be added to
the wire for one that takes none. -/
structure Extends (env : Envelope R) (p : LinePlan R) (a : Primitive R) (p' : LinePlan R) :
    Prop where
  primitives : p'.primitives = p.primitives ++ [a]
  motion : p'.pose.SameMotion (p.pose.after a)
  taken : ∀ length ∈ p.pose.pull? env.head a, p'.wire = p.wire + length
  untaken : p.pose.pull? env.head a = none → p'.wire = p.wire ∨ p'.wire = p.wire + Scalar.zero
  pauses : p'.pauses = true ↔ p.pauses = true ∨ a = .pause
  crossing : ∀ side z, a = .head side z → side.crosses p.pose.head = true →
    env.transfer.inArea p.pose.position = true

/-- A primitive that takes no wire and is no head move, is added alone. -/
theorem Extends.of_still {a : Primitive R} (primitives : p'.primitives = p.primitives ++ [a])
    (motion : p'.pose = p.pose.after a) (still : p.pose.pull? env.head a = none)
    (wire : p'.wire = p.wire) (pauses : p'.pauses = true ↔ p.pauses = true ∨ a = .pause)
    (other : ∀ side z, a ≠ .head side z) : Extends env p a p' where
  primitives := primitives
  motion := motion ▸ .refl _
  taken length some := by
    rw [still] at some
    cases some
  untaken _ := .inl wire
  pauses := pauses
  crossing side z e := absurd e (other side z)

/-- Travel adds its way to the wire. -/
theorem Extends.of_travel {a : Primitive R} {target : Location R} {pose' : Pose R}
    (travelled : p.pose.travel env target = .ok pose')
    (moves : a = .move target limits ∨ ∃ edge, a = .seek edge target limits) :
    Extends env p a (p.draw a pose' (p.pose.position.distanceXY target)) := by
  obtain rfl := Pose.eq_after_of_travel limits travelled
  rcases moves with rfl | ⟨edge, rfl⟩
  all_goals exact {
    primitives := rfl
    motion := .refl _
    taken := fun _ some => congrArg _ (Option.some.inj some)
    untaken := nofun
    pauses := (or_iff_left nofun).symm
    crossing := nofun }

/-- A head move adds the way through the frame to the wire, or zero. -/
theorem Extends.of_head {side : Side} {z wire : R}
    (changed : p.pose.headChange env side = .ok (z, wire)) :
    Extends env p (.head side z) (p.draw (.head side z) (p.pose.withHead side z) wire) := by
  obtain ⟨rfl, crossing⟩ := Pose.headChange_eq_ok changed
  have pull : p.pose.pull? env.head (.head side (env.head.z side)) =
      if side.crosses p.pose.head then
        some (Scalar.abs (env.head.z side - env.head.z p.pose.head)) else none := rfl
  rcases crossing with ⟨stays, rfl⟩ | ⟨crosses, within, rfl⟩
  · rw [stays] at pull
    refine ⟨rfl, .refl _, ?_, fun _ => .inr rfl, (or_iff_left nofun).symm, ?_⟩
    · intro length some
      rw [pull] at some
      cases some
    · rintro _ _ ⟨⟩ crosses
      exact absurd crosses (Bool.eq_false_iff.mp stays)
  · rw [crosses] at pull
    refine ⟨rfl, .refl _, ?_, ?_, (or_iff_left nofun).symm, ?_⟩
    · intro length some
      rw [pull] at some
      exact congrArg _ (Option.some.inj some)
    · intro none
      rw [pull] at none
      cases none
    · exact fun _ _ _ _ => within

/-- A stroke names a pin, or it adds a primitive. -/
theorem Stroke.cases_extends (stroke : Stroke env limits p p') :
    (∃ pin, p' = { p with pose := { p.pose with activePin := some pin } }) ∨
      ∃ a, Extends env p a p' := by
  cases stroke with
  | aim pin => exact .inl ⟨pin, rfl⟩
  | move travelled => exact .inr ⟨_, .of_travel travelled (.inl rfl)⟩
  | seek edge travelled => exact .inr ⟨_, .of_travel travelled (.inr ⟨edge, rfl⟩)⟩
  | head changed => exact .inr ⟨_, .of_head changed⟩
  | latch side =>
    exact .inr ⟨.latch side, .of_still rfl rfl rfl rfl (or_iff_left nofun).symm nofun⟩
  | dwell ms => exact .inr ⟨.dwell ms, .of_still rfl rfl rfl rfl (or_iff_left nofun).symm nofun⟩
  | pause => exact .inr ⟨.pause, .of_still rfl rfl rfl rfl (iff_of_true rfl (.inr rfl)) nofun⟩

/-- The primitives of a plan lead to its pose. -/
def Follows (pose : Pose R) (p : LinePlan R) : Prop :=
  p.pose.SameMotion (pose.afterAll p.primitives)

theorem Extends.follows {a : Primitive R} (more : Extends env p a p') (h : p.Follows pose) :
    p'.Follows pose := by
  rw [Follows, more.primitives, Pose.afterAll_append]
  exact more.motion.trans (h.after a)

/-! ## Plans that replay -/

/-- A plan from a pose is exactly what its primitives do. -/
structure Replays (depths : HeadDepths R) (pose : Pose R) (p : LinePlan R) : Prop where
  motion : p.Follows pose
  wire : p.wire = Scalar.sum (pose.pulls depths p.primitives)
  pauses : p.pauses = true ↔ .pause ∈ p.primitives

/-- A plan without primitives replays where nothing has moved yet. -/
theorem Replays.start {depths : HeadDepths R} {pose' : Pose R} (same : pose'.SameMotion pose) :
    (⟨[], pose', Scalar.zero, false⟩ : LinePlan R).Replays depths pose :=
  ⟨same, rfl, iff_of_false Bool.false_ne_true List.not_mem_nil⟩

variable [MeteredScalar R]

theorem Extends.replays {a : Primitive R} (more : Extends env p a p')
    (h : p.Replays env.head pose) : p'.Replays env.head pose where
  motion := more.follows h.motion
  wire := by
    rw [more.primitives, Pose.pulls_concat, ← h.motion.pull?]
    cases taken : p.pose.pull? env.head a with
    | some length =>
      calc p'.wire
          = p.wire + length := more.taken length taken
        _ = Scalar.sum (pose.pulls env.head p.primitives) + length := by rw [h.wire]
        _ = _ := (Scalar.sum_concat _ _).symm
    | none =>
      -- What is added for a head that stays on its face is zero.
      have same : p.wire + Scalar.zero = p.wire := by
        rw [h.wire]
        exact MeteredScalar.sum_add_zero _ Pose.isLength_of_mem_pulls
      calc p'.wire
          = p.wire := (more.untaken taken).elim id fun added => added.trans same
        _ = Scalar.sum (pose.pulls env.head p.primitives) := h.wire
        _ = _ := by rw [Option.toList_none, List.append_nil]
  pauses := by
    rw [more.pauses, h.pauses, more.primitives, List.mem_append, List.mem_singleton,
      eq_comm (a := a)]

theorem Stroke.replays (stroke : Stroke env limits p p') (h : p.Replays env.head pose) :
    p'.Replays env.head pose := by
  rcases stroke.cases_extends with ⟨pin, rfl⟩ | ⟨a, more⟩
  · exact ⟨(Pose.SameMotion.of_pin p.pose pin).trans h.motion, h.wire, h.pauses⟩
  · exact more.replays h

theorem Strokes.replays (strokes : Strokes env limits p p') (h : p.Replays env.head pose) :
    p'.Replays env.head pose := by
  induction strokes with
  | refl => exact h
  | tail _ stroke ih => exact stroke.replays ih

end LinePlan

/-- A plan of a line is exactly what its primitives do. -/
theorem planLine_replays [MeteredScalar R] {context : PlanContext R} {table : Option (PinTable R)}
    {pose : Pose R} {line : Gcode.Line R} {plan : LinePlan R}
    (planned : planLine context table pose line = .ok plan) :
    plan.Replays context.envelope.head pose :=
  (planLine_strokes planned).2.replays (.start ⟨rfl, rfl, rfl, rfl⟩)

namespace Bench

/-- A line in floating point that takes the head through the frame at the left edge, then to another
stop of the back face, and seeks the top edge. -/
def crossingLine : Gcode.Line Float :=
  ⟨1, none, [.move ⟨some (Scalar.ofNat 440), some (Scalar.ofNat 100), none⟩ none, .head .back,
    .head .partialBack, .move ⟨some (Scalar.ofNat 900), some (Scalar.ofNat 700), none⟩ none,
    .seek .top, .latch .back, .delay 50, .pause], 1⟩

theorem crossingLine_replays : ∃ plan : LinePlan Float,
    planLine ⟨⟨.standard, .standard, .standard⟩, .standard⟩ none (.initial default) crossingLine =
        .ok plan ∧
      plan.Replays .standard (.initial default) ∧ plan.primitives.length = 8 ∧
      plan.pauses = true := by
  have some : (planLine ⟨⟨.standard, .standard, .standard⟩, .standard⟩ none
      (.initial default) crossingLine).toOption.any
        (fun plan : LinePlan Float => plan.primitives.length = 8 ∧ plan.pauses = true) = true := by
    decide +kernel
  obtain ⟨plan, e, h⟩ := Option.any_eq_true _ _ |>.mp some
  have planned := eq_ok_of_toOption e
  exact ⟨plan, planned, planLine_replays planned, of_decide_eq_true h⟩

end Bench

end Winding

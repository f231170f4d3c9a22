import Winding.Proofs.Execution.Operations

/-!
# Depths of the head

The head goes to the depth that the configuration has for its side, and nothing asks whether the
bounds hold it. What an operation can do to the planned position is said once (`Course.Change`): it
draws strokes from it, goes back to the position before a line in flight, or takes one over. Strokes
end at points of the envelope, or at the depth of a side. So the position stays in the envelope
where the bounds reach every depth (`Configuration.ReachesDepths`), and a head move to a depth that
they do not reach leads out of it (`Course.heads_reached`).
-/

namespace Winding

variable {R : Type} [Scalar R]

/-! ## Depths within the bounds -/

/-- A depth that is finite and in the range of the z axis. -/
structure Bounds.Reaches (b : Bounds R) (z : R) : Prop where
  finite : Scalar.isFinite z = true
  low : Scalar.le b.zMin z = true
  high : Scalar.le z b.zMax = true

instance (b : Bounds R) (z : R) : Decidable (b.Reaches z) :=
  decidable_of_iff (Scalar.isFinite z = true ∧ Scalar.le b.zMin z = true ∧
      Scalar.le z b.zMax = true)
    ⟨fun ⟨finite, low, high⟩ => ⟨finite, low, high⟩, fun h => ⟨h.finite, h.low, h.high⟩⟩

/-- A point in range stays in range at another depth exactly if the bounds reach the depth. -/
theorem Bounds.Holds.at_depth {b : Bounds R} {p : Location R} (h : b.Holds p) (z : R) :
    b.Holds { p with z := z } ↔ b.Reaches z := by
  constructor
  · intro moved
    exact ⟨moved.finite .z, moved.low .z, moved.high .z⟩
  · intro reached
    exact ⟨Axis.rec (h.finite .x) (h.finite .y) reached.finite,
      Axis.rec (h.low .x) (h.low .y) reached.low, Axis.rec (h.high .x) (h.high .y) reached.high⟩

/-- Whether the bounds reach the depth of the head at every side. -/
def Configuration.ReachesDepths (c : Configuration R) : Prop :=
  ∀ side, c.bounds.Reaches (c.head.z side)

theorem Pose.headChange_depth {env : Envelope R} {pose : Pose R} {side : Side} {z wire : R}
    (h : pose.headChange env side = .ok (z, wire)) : z = env.head.z side :=
  (headChange_eq_ok h).1

/-- A head move goes to the depth of its side. -/
def Primitive.AtDepth (depths : HeadDepths R) : Primitive R → Prop
  | .head side z => z = depths.z side
  | .move .. | .seek .. | .latch _ | .dwell _ | .pause => True

namespace LinePlan

variable {env : Envelope R} {limits : Limits R} {p p' : LinePlan R}

theorem Stroke.atDepth (stroke : Stroke env limits p p')
    (h : ∀ a ∈ p.primitives, a.AtDepth env.head) : ∀ a ∈ p'.primitives, a.AtDepth env.head := by
  have add {b : Primitive R} (hb : b.AtDepth env.head) :
      ∀ a ∈ p.primitives ++ [b], a.AtDepth env.head := by
    intro a ha
    rcases List.mem_append.mp ha with old | new
    · exact h a old
    · rwa [List.mem_singleton.mp new]
  cases stroke with
  | aim => exact h
  | head changed => exact add (Pose.headChange_depth changed)
  | move | seek | latch | dwell | pause => exact add trivial

theorem Strokes.atDepth (strokes : Strokes env limits p p')
    (h : ∀ a ∈ p.primitives, a.AtDepth env.head) : ∀ a ∈ p'.primitives, a.AtDepth env.head := by
  induction strokes with
  | refl => exact h
  | tail _ stroke ih => exact stroke.atDepth ih

/-- A stroke that starts in the envelope ends in it, if the bounds reach all depths. -/
theorem Stroke.position (reached : ∀ side, env.bounds.Reaches (env.head.z side))
    (stroke : Stroke env limits p p') (h : env.bounds.Holds p.pose.position) :
    env.bounds.Holds p'.pose.position := by
  cases stroke with
  | aim | latch | dwell | pause => exact h
  | move travelled | seek edge travelled =>
    have there := Pose.travel_holds travelled
    unfold Pose.travel at travelled
    split at travelled
    · cases travelled
    · cases travelled
      exact there
  | @head side z wire changed =>
    refine (h.at_depth z).mpr ?_
    rw [Pose.headChange_depth changed]
    exact reached side

theorem Strokes.position (reached : ∀ side, env.bounds.Reaches (env.head.z side))
    (strokes : Strokes env limits p p') (h : env.bounds.Holds p.pose.position) :
    env.bounds.Holds p'.pose.position := by
  induction strokes with
  | refl => exact h
  | tail _ stroke ih => exact stroke.position reached ih

end LinePlan

/-! ## What an operation can do -/

/-- Whether an operation takes lines back. -/
def Operation.rewinds : Operation R → Bool
  | .fault _ | .move .fault => true
  | _ => false

namespace Course

/-- What an operation does to the planned position, the lines in flight and the queue. -/
inductive Change (k : Course R) (op : Operation R) : Course R → Prop
  /-- Nothing is planned. -/
  | keeps {k' : Course R} (context : k'.executor.context = k.executor.context)
      (position : k'.executor.pose.position = k.executor.pose.position)
      (inFlight : ∀ l ∈ k'.executor.inFlight, l ∈ k.executor.inFlight)
      (entries : ∀ e ∈ k'.queue.entries, e ∈ k.queue.entries) : Change k op k'
  /-- Strokes are drawn from the position, and their primitives are queued. -/
  | draws {k' : Course R} {limits : Limits R} {p p' : LinePlan R}
      (context : k'.executor.context = k.executor.context) (fresh : p.primitives = [])
      (start : p.pose.position = k.executor.pose.position)
      (strokes : LinePlan.Strokes k.executor.context.envelope limits p p')
      (position : k'.executor.pose.position = p'.pose.position)
      (inFlight : ∀ l ∈ k'.executor.inFlight,
        l ∈ k.executor.inFlight ∨ l.before = k.executor.pose)
      (entries : ∀ e ∈ k'.queue.entries, e ∈ k.queue.entries ∨ e.primitive ∈ p'.primitives) :
      Change k op k'
  /-- Lines in flight are taken back, if there are any. -/
  | rewinds (rewinds : op.rewinds = true) {k' : Course R}
      (context : k'.executor.context = k.executor.context)
      (pose : k'.executor.pose = k.executor.pose ∨
        ∃ l ∈ k.executor.inFlight, k'.executor.pose = l.before)
      (inFlight : k'.executor.inFlight = [])
      (entries : ∀ e ∈ k'.queue.entries, e ∈ k.queue.entries) : Change k op k'
  /-- A reported position is taken over. -/
  | takes (position : Location R) (takes : op = .syncPosition position) :
      Change k op
        ⟨{ k.executor with pose := { k.executor.pose with position := position } }, k.queue⟩

namespace Change

variable {k k' : Course R} {op : Operation R}

theorem refl (k : Course R) : Change k op k :=
  .keeps rfl rfl (fun _ hl => hl) fun _ he => he

theorem of_quiet (quiet : k.Quiet k') : Change k op k' :=
  .keeps quiet.context (congrArg Pose.position quiet.pose) (fun _ hl => quiet.inFlight.subset hl)
    fun _ he => quiet.entries ▸ he

/-- Whatever leaves the pose and the queue as they are plans nothing. -/
theorem of_executor {x : Executor R} (context : x.context = k.executor.context)
    (pose : x.pose = k.executor.pose) (inFlight : ∀ l ∈ x.inFlight, l ∈ k.executor.inFlight) :
    Change k op ⟨x, k.queue⟩ :=
  .keeps context (congrArg Pose.position pose) inFlight fun _ he => he

/-! ### Lines -/

theorem step (k : Course R) : Change k op (k.after .step) := by
  rcases k.step_cases with ⟨s, plan, q', -, -, planned, pushed, -, after⟩ | ⟨-, quiet, -⟩
  · rw [after]
    obtain ⟨line, -, planned⟩ := Option.bind_eq_some_iff.mp planned
    obtain ⟨-, strokes⟩ := planLine_strokes (eq_ok_of_toOption planned)
    refine .draws rfl rfl rfl strokes rfl (fun l hl => ?_) fun e he => ?_
    · simp only [Executor.advance] at hl
      split at hl
      · exact .inl hl
      · rcases List.mem_append.mp hl with old | new
        · exact .inl old
        · rw [List.mem_singleton.mp new]
          exact .inr rfl
    · rw [Queue.pushAll_eq_ok pushed] at he
      rcases List.mem_append.mp he with old | new
      · exact .inl old
      · exact .inr (Contained.primitive_of_mem_number new)
  · exact .of_quiet quiet

/-- The pose is that before the line that was taken back last. -/
theorem foldl_takeBack_pose (ls : List (InFlight R)) (x : Executor R) :
    (ls.foldl Executor.takeBack x).pose = x.pose ∨
      ∃ l ∈ ls, (ls.foldl Executor.takeBack x).pose = l.before := by
  induction ls generalizing x with
  | nil => exact .inl rfl
  | cons l ls ih =>
    rcases ih (x.takeBack l) with same | ⟨l', hl', before⟩
    · exact .inr ⟨l, List.mem_cons_self, same⟩
    · exact .inr ⟨l', List.mem_cons_of_mem l hl', before⟩

theorem fault (k : Course R) (unfinished : Option Nat) {q : Queue R} (rewinds : op.rewinds = true)
    (entries : ∀ e ∈ q.entries, e ∈ k.queue.entries) :
    Change k op ⟨k.executor.fault unfinished, q⟩ := by
  unfold Executor.fault
  split
  · next line _ =>
    refine .rewinds rewinds (Contained.foldl_takeBack_context _ k.executor) ?_ rfl entries
    rcases foldl_takeBack_pose (k.executor.inFlight.reverse.takeWhile fun l => line ≤ l.index)
      k.executor with same | ⟨l, hl, before⟩
    · exact .inl same
    · exact .inr ⟨l, List.mem_reverse.mp ((List.takeWhile_subset _) hl), before⟩
  · exact .rewinds rewinds rfl (.inl rfl) rfl entries

theorem after (k : Course R) (m : Move) : Change k (.move m) (k.after m) := by
  rcases m.kinds with rfl | ⟨seq, rfl⟩ | rfl | quiet
  · exact step k
  · refine .keeps rfl rfl (fun _ hl => hl) fun e he => ?_
    obtain ⟨n, -, entries, -⟩ := Queue.Retires.complete k.queue seq
    exact List.mem_of_mem_drop (entries ▸ he)
  · exact fault k _ rfl nofun
  · exact .of_quiet (k.after_quiet quiet)

/-! ### Recipes -/

theorem install (k : Course R) (files : FileStore) (path : Option String) (recipe : Recipe R)
    (start : Nat) :
    Change k op ⟨(k.executor.install files path recipe start).2, k.queue⟩ := by
  rcases installed : k.executor.install files path recipe start with ⟨⟨e⟩ | ⟨⟨⟩⟩, x⟩
  · obtain ⟨library, rfl⟩ := Executor.install_eq_error installed
    exact .of_executor rfl rfl fun _ hl => hl
  · obtain ⟨library, s, -, -, -, -, rfl⟩ := Executor.install_eq_ok installed
    exact .of_executor rfl rfl nofun

theorem load (k : Course R) (files : FileStore) (path : String) (start : Nat) :
    Change k op ⟨(k.executor.load files path start).2, k.queue⟩ := by
  unfold Executor.load
  split
  · exact .refl k
  · split
    · exact .refl k
    · exact .install k files _ _ start

/-! ### Manual motion -/

theorem adopt {r : Except (ExecutorError R) (Primitive R × Executor R × Queue R)}
    (taken : ∀ p x q, r = .ok (p, x, q) → Change k op ⟨x, q⟩) : Change k op (k.adopt r) := by
  rcases r with e | ⟨p, x, q⟩
  · exact .refl k
  · exact taken p x q rfl

/-- A manual move is queued on its own, and is a stroke from the pose. -/
theorem manual {m : ManualMove R} {p : Primitive R} {x : Executor R} {q : Queue R}
    (moved : m.request k.executor k.queue = .ok (p, x, q)) : Change k op ⟨x, q⟩ := by
  obtain ⟨pose, planned, rfl, pushed⟩ := ManualMove.request_eq_ok moved
  obtain ⟨limits, plan, stroke, drawn, position⟩ := planned.stroke
  refine .draws rfl rfl rfl (.single stroke) position (fun _ hl => .inl hl) fun e he => ?_
  rw [Queue.push_eq_ok pushed] at he
  rcases List.mem_append.mp he with old | new
  · exact .inl old
  · rw [List.mem_singleton.mp new, drawn]
    exact .inr List.mem_cons_self

end Change

/-- Every operation changes a course in one of these ways. -/
theorem perform_change (k : Course R) (op : Operation R) : Change k op (k.perform op) := by
  cases op with
  | move m => exact .after k m
  | load files path start => exact .load k files path start
  | install files text start =>
    simp only [perform]
    split
    · exact .install k files none _ start
    · exact .refl k
  | unload =>
    simp only [perform, Executor.unload, Executor.unlessRunning]
    split
    · exact .refl k
    · exact .of_executor rfl rfl (List.forall_mem_nil _)
  | fault unfinished => exact .fault k unfinished rfl fun _ he => he
  | clear => exact .keeps rfl rfl (fun _ hl => hl) (List.forall_mem_nil _)
  | drain queueEmpty =>
    simp only [perform, Executor.drain]
    split
    · exact .of_executor rfl rfl (List.forall_mem_nil _)
    · exact .refl k
  | setLine line =>
    simp only [perform, Executor.setLine, Executor.unlessRunning]
    split
    · exact .refl k
    · split
      · exact .refl k
      · split
        · exact .refl k
        · exact .of_executor rfl rfl (List.forall_mem_nil _)
  | syncPosition position =>
    simp only [perform, Executor.syncPosition]
    split
    · exact .refl k
    · exact .takes position rfl
  | jog target velocity => exact .adopt fun _ _ _ moved => .manual (m := .jog target velocity) moved
  | moveHead side => exact .adopt fun _ _ _ moved => .manual (m := .head side) moved
  | moveLatch side => exact .adopt fun _ _ _ moved => .manual (m := .latch side) moved
  | seekPin pin => exact .adopt fun _ _ _ moved => .manual (m := .visit pin) moved

/-! ## Runs -/

/-- The queue holds head moves only to the depths of their sides. -/
structure AtDepths (k : Course R) (context : PlanContext R) : Prop where
  planning : k.executor.context = context
  queued : ∀ e ∈ k.queue.entries, e.primitive.AtDepth context.envelope.head

/-- The planned position is in the envelope, and so is every position to which a fault may go
back. -/
structure Inside (k : Course R) (b : Bounds R) : Prop where
  position : b.Holds k.executor.pose.position
  inFlight : ∀ l ∈ k.executor.inFlight, b.Holds l.before.position

variable {k k' : Course R} {context : PlanContext R} {op : Operation R}

theorem AtDepths.change (h : k.AtDepths context) (change : Change k op k') :
    k'.AtDepths context := by
  have old (same : k'.executor.context = k.executor.context)
      (kept : ∀ e ∈ k'.queue.entries, e ∈ k.queue.entries) : k'.AtDepths context :=
    ⟨same.trans h.planning, fun e he => h.queued e (kept e he)⟩
  cases change with
  | keeps same _ _ kept => exact old same kept
  | rewinds _ same _ _ kept => exact old same kept
  | takes _ _ => exact ⟨h.planning, h.queued⟩
  | draws same fresh _ strokes _ _ entries =>
    refine ⟨same.trans h.planning, fun e he => ?_⟩
    rcases entries e he with before | drawn
    · exact h.queued e before
    · rw [h.planning] at strokes
      exact strokes.atDepth (by rw [fresh]; exact nofun) _ drawn

theorem AtDepths.performAll (h : k.AtDepths context) (ops : List (Operation R)) :
    (k.performAll ops).AtDepths context := by
  induction ops generalizing k with
  | nil => exact h
  | cons op ops ih => exact ih (h.change (k.perform_change op))

/-- Unless lines are taken back or a position is taken over, a position of the envelope leads to
one. -/
theorem AtDepths.position (h : k.AtDepths context) (change : Change k op k')
    (reached : ∀ side, context.envelope.bounds.Reaches (context.envelope.head.z side))
    (onward : op.rewinds = false) (planned : ∀ p, op ≠ .syncPosition p)
    (inside : context.envelope.bounds.Holds k.executor.pose.position) :
    context.envelope.bounds.Holds k'.executor.pose.position := by
  cases change with
  | keeps _ same _ _ => rwa [same]
  | draws _ _ start strokes position _ _ =>
    rw [h.planning] at strokes
    rw [position]
    exact strokes.position reached (start ▸ inside)
  | rewinds back =>
    rw [onward] at back
    cases back
  | takes p taken => exact absurd taken (planned p)

theorem AtDepths.inside (h : k.AtDepths context) (change : Change k op k')
    (reached : ∀ side, context.envelope.bounds.Reaches (context.envelope.head.z side))
    (taken : ∀ p, op = .syncPosition p → context.envelope.bounds.Holds p)
    (inside : k.Inside context.envelope.bounds) : k'.Inside context.envelope.bounds := by
  cases change with
  | keeps _ same kept _ => exact ⟨same ▸ inside.position, fun l hl => inside.inFlight l (kept l hl)⟩
  | draws _ _ start strokes position kept _ =>
    rw [h.planning] at strokes
    refine ⟨?_, fun l hl => ?_⟩
    · rw [position]
      exact strokes.position reached (start ▸ inside.position)
    · rcases kept l hl with old | before
      · exact inside.inFlight l old
      · rw [before]
        exact inside.position
  | rewinds _ _ back none _ =>
    refine ⟨?_, by rw [none]; exact nofun⟩
    rcases back with same | ⟨l, hl, before⟩
    · rw [same]
      exact inside.position
    · rw [before]
      exact inside.inFlight l hl
  | takes p e => exact ⟨taken p e, inside.inFlight⟩

theorem AtDepths.performAll_inside (h : k.AtDepths context)
    (reached : ∀ side, context.envelope.bounds.Reaches (context.envelope.head.z side))
    (inside : k.Inside context.envelope.bounds) {ops : List (Operation R)}
    (taken : ∀ p, .syncPosition p ∈ ops → context.envelope.bounds.Holds p) :
    (k.performAll ops).Inside context.envelope.bounds := by
  induction ops generalizing k with
  | nil => exact inside
  | cons op ops ih =>
    have change := k.perform_change op
    have first : ∀ p, op = .syncPosition p → context.envelope.bounds.Holds p := fun p e =>
      taken p (e ▸ List.mem_cons_self)
    exact ih (h.change change) (h.inside change reached first inside) fun p hp =>
      taken p (List.mem_cons_of_mem op hp)

/-! ## Configured executors -/

/-- A head move that is accepted ends at the depth of its side. -/
theorem position_of_moveHead {k : Course R} {side : Side} {p : Primitive R} {x : Executor R}
    {q : Queue R} (moved : k.executor.moveHead k.queue side = .ok (p, x, q)) :
    x.pose.position =
      { k.executor.pose.position with z := k.executor.context.envelope.head.z side } := by
  obtain ⟨pose, planned, rfl, -⟩ := ManualMove.request_eq_ok (m := .head side) moved
  cases planned with
  | head side changed =>
    rw [← Pose.headChange_depth changed]
    rfl

/-- With a valid configuration, whatever is asked of the executor, with whatever calibration: every
head move that was queued goes to the depth of its side, and one that is accepted inside the
envelope stays inside exactly if the bounds reach that depth. If they reach all depths, then no
operation leads from a position inside to one outside, other than by going back to a line that began
outside or by taking a position over; and if only positions inside were taken over, then the planned
position never leaves the envelope. -/
theorem heads_reached {c : Configuration R} (valid : c.validate = .ok ()) (d : DataDirectory) :
    ∃ x, Machine.executorOf c d = .ok x ∧
      ∀ (library : CalibrationLibrary R) (capacity : Nat) (ops : List (Operation R)),
        let start : Course R := ⟨{ x with library := library }, .empty capacity⟩
        let k := start.performAll ops
        (∀ e ∈ k.queue.entries, ∀ side z, e.primitive = .head side z → z = c.head.z side) ∧
        (∀ side p x' q, c.bounds.Holds k.executor.pose.position →
          k.executor.moveHead k.queue side = .ok (p, x', q) →
          (c.bounds.Holds x'.pose.position ↔ c.bounds.Reaches (c.head.z side))) ∧
        (c.ReachesDepths →
          (∀ e ∈ k.queue.entries, ∀ side z, e.primitive = .head side z → c.bounds.Reaches z) ∧
          (∀ op, op.rewinds = false → (∀ p, op ≠ .syncPosition p) →
            c.bounds.Holds k.executor.pose.position →
            c.bounds.Holds (k.perform op).executor.pose.position) ∧
          (c.bounds.Holds .origin → (∀ p, .syncPosition p ∈ ops → c.bounds.Holds p) →
            c.bounds.Holds k.executor.pose.position)) := by
  obtain ⟨layers, made⟩ := Configuration.executorOf_context valid d
  refine ⟨_, made, fun library capacity ops => ?_⟩
  intro start k
  have begins : start.AtDepths ⟨⟨c.bounds, c.transfer, c.head⟩, c.rates⟩ := ⟨rfl, nofun⟩
  have depths := begins.performAll ops
  have queued : ∀ e ∈ k.queue.entries, ∀ side z, e.primitive = .head side z →
      z = c.head.z side := by
    intro e he side z head
    have atDepth := depths.queued e he
    rwa [head] at atDepth
  refine ⟨queued, fun side p x' q inside moved => ?_, fun reached => ⟨?_, ?_, ?_⟩⟩
  · rw [position_of_moveHead moved, depths.planning]
    exact inside.at_depth _
  · intro e he side z head
    rw [queued e he side z head]
    exact reached side
  · intro op onward planned inside
    exact depths.position (k.perform_change op) reached onward planned inside
  · intro origin taken
    have inside : start.Inside c.bounds := ⟨origin, nofun⟩
    exact (begins.performAll_inside reached inside taken).position

/-- With the defaults, over the numbers of the machine: the head goes to the side before the back,
which is refused in the corner, and to the one behind the front. -/
theorem standard_heads_reached :
    (Configuration.standard : Configuration Float).ReachesDepths ∧
    ∃ x : Executor Float, Machine.executorOf .standard ⟨"data"⟩ = .ok x ∧
      let start : Course Float := ⟨{ x with library := ⟨[], []⟩ }, .empty 8⟩
      let k := start.performAll [.moveHead .partialBack, .moveHead .partialFront]
      (∀ e ∈ k.queue.entries, ∀ side z, e.primitive = .head side z →
        (Bounds.standard : Bounds Float).Reaches z) ∧
      (Bounds.standard : Bounds Float).Holds k.executor.pose.position := by
  have reached : (Configuration.standard : Configuration Float).ReachesDepths :=
    Side.rec (by decide +kernel) (by decide +kernel) (by decide +kernel) (by decide +kernel)
  have origin : (Bounds.standard : Bounds Float).Holds .origin :=
    Bounds.contains_iff.mp (by decide +kernel)
  obtain ⟨x, made, course⟩ := heads_reached Configuration.standard_valid ⟨"data"⟩
  obtain ⟨-, -, inside⟩ := course ⟨[], []⟩ 8 [.moveHead .partialBack, .moveHead .partialFront]
  obtain ⟨queued, -, position⟩ := inside reached
  exact ⟨reached, x, made, queued, position origin (by simp)⟩

/-- The defaults with a partial front that is deeper than the bounds reach. -/
def deepHead : Configuration Float :=
  { Configuration.standard with head := { HeadDepths.standard with partialFront := 500 } }

theorem deepHead_valid : deepHead.validate = .ok () := by
  have accepted : deepHead.validate.isOk = true := by decide +kernel
  rcases validated : deepHead.validate with e | ⟨⟨⟩⟩
  · rw [validated] at accepted
    cases accepted
  · rfl

/-- A valid configuration does not keep the head inside: here it is queued to go, and is planned to
be, deeper than the bounds reach. -/
theorem deep_head_queued :
    deepHead.validate = .ok () ∧
    ∃ x : Executor Float, Machine.executorOf deepHead ⟨"data"⟩ = .ok x ∧
      let start : Course Float := ⟨x, .empty 8⟩
      let k := start.perform (.moveHead .partialFront)
      deepHead.bounds.Holds start.executor.pose.position ∧
      (∃ e ∈ k.queue.entries, ∃ z, e.primitive = .head .partialFront z ∧
        ¬deepHead.bounds.Reaches z) ∧
      ¬deepHead.bounds.Holds k.executor.pose.position := by
  have deep : ¬deepHead.bounds.Reaches 500 := by decide +kernel
  have origin : deepHead.bounds.Holds .origin := Bounds.contains_iff.mp (by decide +kernel)
  obtain ⟨layers, made⟩ := Configuration.executorOf_context deepHead_valid ⟨"data"⟩
  refine ⟨deepHead_valid, _, made, origin, ⟨⟨0, none, .head .partialFront 500⟩,
    List.mem_cons_self, 500, rfl, deep⟩, fun inside => deep ?_⟩
  exact (origin.at_depth 500).mp inside

end Course

end Winding

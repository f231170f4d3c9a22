import Winding.Proofs.Execution.Coherence

/-!
# The sequential plan

Planned one after the other from the pose at which a session was loaded, the lines of a recipe have
one plan each (`Session.plan?`). Stops, faults and restarts are invisible to planning: in every
course of a session, the pose of the executor is the one before the line under the cursor, and the
line that is queued is queued with its sequential plan (`Executor.install_sequential`).
-/

namespace Winding

variable {R : Type} [Scalar R]

namespace Session

/-- The pose after the first `k` lines from the start on, planned in order from a pose. -/
def poseAfter? (context : PlanContext R) (s : Session R) (pose : Pose R) : Nat → Option (Pose R)
  | 0 => some pose
  | k + 1 =>
    ((s.poseAfter? context pose k).bind fun p => s.planAt? context p (s.start + k)).map LinePlan.pose

/-- The pose before a line. -/
def poseBefore? (context : PlanContext R) (s : Session R) (pose : Pose R) (i : Nat) :
    Option (Pose R) :=
  s.poseAfter? context pose (i - s.start)

/-- The plan of a line, from the pose before it. -/
def plan? (context : PlanContext R) (s : Session R) (pose : Pose R) (i : Nat) :
    Option (LinePlan R) :=
  (s.poseBefore? context pose i).bind fun p => s.planAt? context p i

variable {context : PlanContext R} {s : Session R} {pose : Pose R}

theorem poseBefore?_start : s.poseBefore? context pose s.start = some pose := by
  rw [poseBefore?, Nat.sub_self, poseAfter?]

theorem poseBefore?_succ {i : Nat} (h : s.start ≤ i) :
    s.poseBefore? context pose (i + 1) = (s.plan? context pose i).map LinePlan.pose := by
  rw [poseBefore?, Nat.succ_sub h, poseAfter?, Nat.add_sub_cancel' h]
  rfl

/-- The sequential plan does not depend on how far execution is. -/
theorem poseBefore?_cursor (i j : Nat) :
    { s with cursor := j }.poseBefore? context pose i = s.poseBefore? context pose i := by
  unfold poseBefore?
  generalize i - s.start = k
  induction k with
  | zero => rfl
  | succ k ih => simp only [poseAfter?, ih]; rfl

end Session

/-- Planning is where the sequential plan is, and so are the poses to which a fault goes back. -/
structure Course.Sequential (c : Course R) (s : Session R) (context : PlanContext R)
    (pose : Pose R) : Prop where
  coherent : c.Coherent s
  context_eq : c.executor.context = context
  pose_eq : s.poseBefore? context pose s.cursor = some c.executor.pose
  before : ∀ l ∈ c.executor.inFlight, s.poseBefore? context pose l.index = some l.before

namespace Course.Sequential

variable {c : Course R} {s : Session R} {context : PlanContext R} {pose : Pose R}

/-- A session that begins is planned from the pose of the executor. -/
theorem of_begin (x : Executor R) {q : Queue R} (start : s.start = s.cursor)
    (cursor_le : s.cursor ≤ s.lines.length) (motion : Queue.motion q.entries = []) :
    Sequential ⟨x.begin s, q⟩ s x.context x.pose where
  coherent := .of_begin x start cursor_le motion
  context_eq := rfl
  pose_eq := start ▸ Session.poseBefore?_start
  before := nofun

/-- The plan that a step makes is the sequential one. -/
theorem plan_eq (h : c.Sequential s context pose) {plan : LinePlan R}
    (planned : s.planAt? c.executor.context c.executor.pose s.cursor = some plan) :
    s.plan? context pose s.cursor = some plan := by
  rw [Session.plan?, h.pose_eq, Option.bind_some, ← h.context_eq, planned]

/-- A quiet move keeps the pose, and keeps or forgets lines in flight. -/
theorem quiet (h : c.Sequential s context pose) {c' : Course R} (hq : c.Quiet c')
    (coherent : c'.Coherent s) : c'.Sequential s context pose where
  coherent := coherent
  context_eq := hq.context.trans h.context_eq
  pose_eq := hq.pose ▸ h.pose_eq
  before l hl := h.before l (hq.inFlight.subset hl)

theorem queued_line (h : c.Sequential s context pose) {plan : LinePlan R} {q' : Queue R}
    (cursor : s.cursor < s.lines.length)
    (planned : s.planAt? c.executor.context c.executor.pose s.cursor = some plan)
    (pushed : c.queue.pushAll (some s.cursor) plan.primitives = .ok q') :
    Sequential ⟨c.executor.advance s plan, q'⟩ { s with cursor := s.cursor + 1 } context pose where
  coherent := h.coherent.queued_line cursor pushed
  context_eq := h.context_eq
  pose_eq := by
    rw [Session.poseBefore?_cursor, Session.poseBefore?_succ h.coherent.start_le,
      h.plan_eq planned]
    rfl
  before l hl := by
    rw [Session.poseBefore?_cursor]
    simp only [Executor.advance] at hl
    split at hl
    · exact h.before l hl
    · rcases List.mem_append.mp hl with hl | hl
      · exact h.before l hl
      · obtain rfl := List.mem_singleton.mp hl
        exact h.pose_eq

/-- A fault restores the pose that was saved before the line it goes back to. -/
theorem fault (h : c.Sequential s context pose) :
    ∃ i, c.fault.Sequential { s with cursor := i } context pose := by
  obtain ⟨i, start_le, le_cursor, -, place, e⟩ := h.coherent.fault_eq
  rw [e]
  refine ⟨i, .of_rest rfl start_le (le_cursor.trans h.coherent.cursor_le) rfl rfl nofun,
    h.context_eq, ?_, nofun⟩
  rw [Session.poseBefore?_cursor]
  rcases place with ⟨l, hl, rfl⟩ | ⟨none, rfl⟩
  · rw [Option.mem_def.mp hl]
    exact h.before l (Executor.mem_inFlight_of_head? hl)
  · rw [none]
    exact h.pose_eq

/-- A move keeps planning in sequence. -/
theorem move (h : c.Sequential s context pose) (m : Move) :
    ∃ i, (c.after m).Sequential { s with cursor := i } context pose := by
  obtain ⟨i, coherent⟩ := h.coherent.move m
  have quiet (hq : c.Quiet (c.after m)) :
      ∃ i, (c.after m).Sequential { s with cursor := i } context pose :=
    ⟨s.cursor, h.quiet hq (coherent.of_session_eq (hq.session.trans h.coherent.session))⟩
  rcases m.kinds with rfl | ⟨seq, rfl⟩ | rfl | hm
  · rcases c.step_cases with ⟨s', plan, q', session, cursor, planned, pushed, -, e⟩ | ⟨-, hq, -⟩
    · obtain rfl := Option.some.inj (h.coherent.session.symm.trans session)
      rw [e]
      exact ⟨_, h.queued_line cursor planned pushed⟩
    · exact quiet hq
  · exact ⟨s.cursor, h.coherent.retires (.complete c.queue seq), h.context_eq, h.pose_eq, h.before⟩
  · exact h.fault
  · exact quiet (c.after_quiet hm)

/-- A course keeps planning in sequence. -/
theorem run (h : c.Sequential s context pose) (ms : List Move) :
    ∃ i, (c.run ms).Sequential { s with cursor := i } context pose := by
  induction ms generalizing c s with
  | nil => exact ⟨s.cursor, h⟩
  | cons m ms ih =>
    obtain ⟨i, hi⟩ := h.move m
    obtain ⟨j, hj⟩ := ih hi
    exact ⟨j, hj⟩

/-- What a step pushes is the sequential plan of the line under the cursor, or nothing. -/
theorem step_pushes (h : c.Sequential s context pose) :
    (c.emits → ∃ plan, s.plan? context pose s.cursor = some plan ∧
      c.queue.pushAll (some s.cursor) plan.primitives = .ok (c.after .step).queue ∧
      (c.after .step).executor.line? = some (s.cursor + 1)) ∧
    (c.emits = false → (c.after .step).queue = c.queue ∧
      (c.after .step).executor.line? = some s.cursor) := by
  rcases c.step_cases with ⟨s', plan, q', session, -, planned, pushed, emits, e⟩ |
    ⟨emits, hq, queue⟩
  · obtain rfl := Option.some.inj (h.coherent.session.symm.trans session)
    rw [emits, e]
    exact ⟨fun _ => ⟨plan, h.plan_eq planned, pushed, rfl⟩, nofun⟩
  · rw [emits]
    refine ⟨nofun, fun _ => ⟨queue, ?_⟩⟩
    rw [Executor.line?, hq.session, h.coherent.session, Option.map_some]

end Course.Sequential

/-! ## Stops and faults are invisible to planning -/

namespace Executor

/-- A recipe that was installed at a line is planned in sequence, whatever course it takes. Before
it was installed, the queue held no line of a recipe. -/
theorem install_sequential {x x₀ : Executor R} {files : FileStore} {path : Option String}
    {recipe : Recipe R} {start : Nat} {q : Queue R}
    (installed : x.install files path recipe start = (.ok (), x₀))
    (unclaimed : ∀ e ∈ q.entries, e.line = none) (ms : List Move) :
    ∃ s i, x₀.session = some s ∧ s.start = start ∧ s.cursor = start ∧ s.lines = recipe.lines ∧
      let c := Course.run ⟨x₀, q⟩ ms
      c.executor.session = some { s with cursor := i } ∧
      s.poseBefore? x₀.context x₀.pose i = some c.executor.pose ∧
      (c.emits → ∃ plan, s.plan? x₀.context x₀.pose i = some plan ∧
        c.queue.pushAll (some i) plan.primitives = .ok (c.after .step).queue ∧
        (c.after .step).executor.line? = some (i + 1)) ∧
      (c.emits = false →
        (c.after .step).queue = c.queue ∧ (c.after .step).executor.line? = some i) := by
  obtain ⟨library, s, start_eq, cursor_eq, lines, le, rfl⟩ := install_eq_ok installed
  have motion : Queue.motion q.entries = [] := Queue.motion_eq_nil_iff.mpr unclaimed
  have begun : Course.Sequential ⟨{ x with library := library }.begin s, q⟩ s x.context x.pose :=
    .of_begin { x with library := library } (start_eq.trans cursor_eq.symm) (cursor_eq ▸ le) motion
  obtain ⟨i, h⟩ := begun.run ms
  have pose := h.pose_eq
  have pushes := h.step_pushes
  rw [Session.poseBefore?_cursor] at pose
  simp only [Session.plan?, Session.poseBefore?_cursor] at pushes
  exact ⟨s, i, rfl, start_eq, cursor_eq, lines, h.coherent.session, pose, pushes⟩

end Executor

namespace Bench

/-- All lines are queued; a fault strikes while the last one is half done, and is cleared. -/
def faultMoves : List Move :=
  [.setReady true, .step, .step, .step, .complete 0, .complete 1, .settle, .fault, .clearFault]

/-- The course after the fault. -/
def faulted : Course Whole := Course.run ⟨loaded, .empty 8⟩ faultMoves

/-- The line that was half done is queued again as in the sequential plan, which goes through the
line that moved nothing. -/
theorem faulted_replays :
    executor.install (.empty []) none recipe 0 = (.ok (), loaded) ∧
      (∀ e ∈ (Queue.empty 8 : Queue Whole).entries, e.line = none) ∧
      faulted.executor.line? = some 2 ∧ faulted.emits ∧
      ∃ s plan, loaded.session = some s ∧ s.plan? loaded.context loaded.pose 2 = some plan ∧
        faulted.queue.pushAll (some 2) plan.primitives = .ok (faulted.after .step).queue := by
  have unclaimed : ∀ e ∈ (Queue.empty 8 : Queue Whole).entries, e.line = none :=
    List.forall_mem_nil _
  have line : faulted.executor.line? = some 2 := by decide +kernel
  have emits : faulted.emits := by decide +kernel
  obtain ⟨s, i, session, -, -, -, now, -, pushes, -⟩ :=
    Executor.install_sequential install_eq unclaimed faultMoves
  rw [← faulted] at now pushes
  obtain rfl : i = 2 := by
    rw [Executor.line?, now] at line
    exact Option.some.inj line
  obtain ⟨plan, planned, pushed, -⟩ := pushes emits
  exact ⟨install_eq, unclaimed, line, emits, s, plan, session, planned, pushed⟩

end Bench

end Winding

import Winding.Execution.Executor
import Winding.Proofs.Motion.Recipe
import Winding.Proofs.Number.Exact

/-!
# Courses of execution

Winding is a course of moves on an executor and its motion queue: steps, completions, settling,
faults, stops and restarts, in any order (`Move`, `Course.run`). A step either queues the line under
the cursor whole or changes nothing but the state (`Executor.step_stepped`). The line that a step
queues is its emission (`Course.emission?`).
-/

namespace Winding

variable {R : Type} [Scalar R]

/-! ## What a step can do -/

/-- The plan of a line from a pose, if there is such a line and it can be planned. -/
def Session.planAt? (context : PlanContext R) (s : Session R) (pose : Pose R) (i : Nat) :
    Option (LinePlan R) :=
  s.lines[i]?.bind fun line => (planLine context (some s.table) pose line).toOption

/-- Whether lines may be planned in a state. -/
def ExecutorState.isPlanning : ExecutorState → Bool
  | .ready | .emitting | .blocked => true
  | _ => false

namespace Executor

/-- The outcomes of a step. -/
inductive Stepped (x : Executor R) (q : Queue R) :
    Except (ExecutorError R) StepOutcome × Executor R × Queue R → Prop
  /-- The line under the cursor is queued whole. -/
  | queued {s : Session R} {plan : LinePlan R} {q' : Queue R} (session : x.session = some s)
      (planning : x.state.isPlanning) (cursor : s.cursor < s.lines.length)
      (planned : s.planAt? x.context x.pose s.cursor = some plan)
      (pushed : q.pushAll (some s.cursor) plan.primitives = .ok q') :
      Stepped x q (.ok (if plan.pauses then .pause else .advanced), x.advance s plan, q')
  /-- No line is left, or the last one was queued before. -/
  | finished (last : x.state = .done ∨
        ∃ s, x.session = some s ∧ x.state.isPlanning ∧ s.lines.length ≤ s.cursor) :
      Stepped x q (.ok .finished, { x with state := .done }, q)
  /-- The controller is not ready, or the queue has no room. -/
  | blocked (reason : BlockReason) (session : x.session.isSome) (planning : x.state.isPlanning) :
      Stepped x q (.ok (.blocked reason), { x with state := .blocked }, q)
  | stopping (state : x.state = .stopping) : Stepped x q (.ok (.blocked .stopping), x, q)
  /-- The line cannot be planned, or can never be queued, or a fault was not cleared. -/
  | failed (e : ExecutorError R) : Stepped x q (.error e, { x with state := .faulted }, q)
  /-- There is nothing to step. -/
  | refused (e : ExecutorError R) (idle : x.state = .idle ∨ x.session = none) :
      Stepped x q (.error e, x, q)

/-- What comes of the line at the cursor. -/
theorem stepLine_stepped {x : Executor R} {q : Queue R} {s : Session R} (hs : x.session = some s)
    (h : x.state.isPlanning) : Stepped x q (x.stepLine q s) := by
  simp only [stepLine]
  rcases hl : s.lines[s.cursor]? with _ | line
  · exact .finished (.inr ⟨s, hs, h, List.getElem?_eq_none_iff.mp hl⟩)
  · have cursor : s.cursor < s.lines.length := (List.getElem?_eq_some_iff.mp hl).1
    simp only
    split
    · exact .blocked _ (by simp [hs]) h
    · rcases hp : planLine x.context (some s.table) x.pose line with e | plan
      · exact .failed _
      · simp only [emit]
        split
        · exact .failed _
        · rcases hq : q.pushAll (some s.cursor) plan.primitives with e | q'
          · exact .blocked _ (by simp [hs]) h
          · exact .queued hs h cursor (by simp [Session.planAt?, hl, hp, Except.toOption]) hq

/-- A step has one of its outcomes. -/
theorem step_stepped (x : Executor R) (q : Queue R) : Stepped x q (x.step q) := by
  unfold step
  cases hx : x.state with
  | idle => exact .refused _ (.inl hx)
  | ready | emitting | blocked =>
    simp only
    split
    · next none => exact .refused _ (.inr none)
    · next s hs => exact stepLine_stepped hs (by simp [hx, ExecutorState.isPlanning])
  | done =>
    have h : Stepped x q (.ok .finished, { x with state := .done }, q) := .finished (.inl hx)
    rwa [← hx] at h
  | faulted =>
    have h : Stepped x q (.error .faulted, { x with state := .faulted }, q) := .failed _
    rwa [← hx] at h
  | stopping => exact .stopping hx

/-! ### Lines that are planned -/

/-- A step plans this line: it is the one under the cursor, the state lets lines be planned, and the
controller takes primitives. -/
structure Plans (x : Executor R) (q : Queue R) (s : Session R) (line : Gcode.Line R) : Prop where
  session : x.session = some s
  planning : x.state.isPlanning = true
  line : s.lines[s.cursor]? = some line
  ready : q.ready = true

/-- Whether a step has this outcome without a line that it plans. -/
def isUnplanned : Except (ExecutorError R) StepOutcome → Bool
  | .ok .finished | .ok (.blocked .stopping) | .ok (.blocked .controllerNotReady)
  | .error .faulted | .error (.invalidTransition _ _) | .error (.plan .noRecipe) => true
  | _ => false

variable {x : Executor R} {q : Queue R} {s : Session R} {line : Gcode.Line R} {plan : LinePlan R}

theorem Plans.step_eq (h : x.Plans q s line) : x.step q = x.stepLine q s := by
  have planning := h.planning
  unfold step
  cases state : x.state with
  | ready | emitting | blocked => simp only [h.session]
  | idle | stopping | done | faulted =>
    rw [state] at planning
    cases planning

/-- A line that cannot be planned changes nothing but the state. -/
theorem Plans.step_refused (h : x.Plans q s line) {e : PlanError R}
    (refused : planLine x.context (some s.table) x.pose line = .error e) :
    x.step q = (.error (.plan e), { x with state := .faulted }, q) := by
  simp only [h.step_eq, stepLine, h.line, h.ready, refused, Bool.not_true, Bool.false_eq_true,
    if_false]

theorem Plans.step_planned (h : x.Plans q s line)
    (planned : planLine x.context (some s.table) x.pose line = .ok plan) :
    x.step q = x.emit q s plan := by
  simp only [h.step_eq, stepLine, h.line, h.ready, planned, Bool.not_true, Bool.false_eq_true,
    if_false]

/-- A step plans a line, or its outcome says why there is none. -/
theorem plans_or_unplanned (x : Executor R) (q : Queue R) :
    (∃ s line, x.Plans q s line) ∨ isUnplanned (x.step q).1 = true := by
  unfold step
  cases state : x.state with
  | idle =>
    refine .inr ?_
    simp only
    split
    · rfl
    · rfl
  | stopping | done | faulted => exact .inr rfl
  | ready | emitting | blocked =>
    rcases session : x.session with _ | s
    · exact .inr rfl
    · simp only [stepLine]
      rcases found : s.lines[s.cursor]? with _ | line
      · exact .inr rfl
      · rcases ready : q.ready with _ | _
        · exact .inr rfl
        · exact .inl ⟨s, line, session, by rw [state]; rfl, found, ready⟩

/-- What is wrong with a line is told by the step that plans it. -/
theorem step_eq_plan_error {e : PlanError R} (other : e ≠ .noRecipe) :
    (x.step q).1 = .error (.plan e) ↔ ∃ s line, x.Plans q s line ∧
      planLine x.context (some s.table) x.pose line = .error e := by
  constructor
  · intro refused
    rcases x.plans_or_unplanned q with ⟨s, line, plans⟩ | unplanned
    · refine ⟨s, line, plans, ?_⟩
      rcases planned : planLine x.context (some s.table) x.pose line with e' | plan
      · rw [plans.step_refused planned] at refused
        rw [ExecutorError.plan.inj (Except.error.inj refused)]
      · rw [plans.step_planned planned] at refused
        unfold emit at refused
        split at refused
        · cases refused
        · split at refused
          · cases refused
          · cases refused
    · rw [refused] at unplanned
      cases e with
      | noRecipe => exact absurd rfl other
      | calibration | outOfBounds | seek | notInTransferArea | invalidLimits => cases unplanned
  · rintro ⟨s, line, plans, refused⟩
    rw [plans.step_refused refused]

end Executor

/-! ## Moves -/

/-- An executor with the motion queue that it plans into. -/
structure Course (R : Type) where
  executor : Executor R
  queue : Queue R

/-- What happens to an executor and its queue while a recipe is wound. -/
inductive Move where
  /-- The line under the cursor is planned and queued. -/
  | step
  /-- The entry in front is completed, if it has this number. -/
  | complete (seq : Nat)
  | settle
  /-- The queue is cleared, and the executor goes back to the first line that was dropped. -/
  | fault
  | requestStop
  | drain
  | arm
  | clearFault
  | spend (ms : Nat)
  | setReady (ready : Bool)
deriving DecidableEq, Repr

namespace Course

/-- The course after a fault of the controller. -/
def fault (c : Course R) : Course R :=
  ⟨c.executor.fault (c.queue.entries.filterMap QueueEntry.line).min?, c.queue.clear.2⟩

/-- The course after a move. A restart that is refused changes nothing. -/
def after (c : Course R) : Move → Course R
  | .step => ⟨(c.executor.step c.queue).2.1, (c.executor.step c.queue).2.2⟩
  | .complete seq => { c with queue := (c.queue.complete seq).2 }
  | .settle => { c with executor := c.executor.settle c.queue }
  | .fault => c.fault
  | .requestStop => { c with executor := c.executor.requestStop }
  | .drain => { c with executor := (c.executor.drain c.queue.isEmpty).2 }
  | .arm => { c with executor := c.executor.arm.toOption.getD c.executor }
  | .clearFault => { c with executor := c.executor.clearFault.toOption.getD c.executor }
  | .spend ms => { c with executor := c.executor.spend ms }
  | .setReady ready => { c with queue := c.queue.setReady ready }

/-- The course after moves. -/
def run (c : Course R) (moves : List Move) : Course R := moves.foldl after c

@[simp] theorem run_nil (c : Course R) : c.run [] = c := rfl

@[simp] theorem run_cons (c : Course R) (m : Move) (ms : List Move) :
    c.run (m :: ms) = (c.after m).run ms := rfl

@[simp] theorem run_append (c : Course R) (ms ns : List Move) :
    c.run (ms ++ ns) = (c.run ms).run ns :=
  List.foldl_append ..

end Course

/-! ## Emissions -/

/-- A line that was queued, with the plan that was queued for it. -/
structure Emission (R : Type) where
  line : Nat
  plan : LinePlan R

namespace Emission

/-- The primitives of the line. -/
def primitives (e : Emission R) : List (Primitive R) := e.plan.primitives

/-- The primitives with their line. -/
def motion (e : Emission R) : List (Nat × Primitive R) := e.primitives.map fun p => (e.line, p)

/-- The wire that the line takes. -/
def wire (e : Emission R) : R := e.plan.wire

end Emission

/-- Whether the outcome of a step is that a line was queued. -/
def StepOutcome.emits : StepOutcome → Bool
  | .advanced | .pause => true
  | .blocked _ | .finished => false

/-- Whether a step queues a line. -/
def Course.emits (c : Course R) : Bool :=
  (c.executor.step c.queue).1.toOption.any StepOutcome.emits

/-- The line that a step queues, and its plan. -/
def Course.emission? (c : Course R) : Option (Emission R) :=
  if c.emits then
    c.executor.session.bind fun s =>
      (s.planAt? c.executor.context c.executor.pose s.cursor).map fun plan => ⟨s.cursor, plan⟩
  else none

/-! ## What a move can do -/

/-- A move other than a step, a completion and a fault. -/
def Move.isQuiet : Move → Bool
  | .step | .complete _ | .fault => false
  | _ => true

theorem Move.kinds (m : Move) :
    m = .step ∨ (∃ seq, m = .complete seq) ∨ m = .fault ∨ m.isQuiet := by
  cases m <;> simp [isQuiet]

namespace Course

/-- Planning and the queue are left alone. The oldest lines in flight may be forgotten. -/
structure Quiet (c c' : Course R) : Prop where
  context : c'.executor.context = c.executor.context
  session : c'.executor.session = c.executor.session
  pose : c'.executor.pose = c.executor.pose
  wire : c'.executor.wire = c.executor.wire
  emitted : c'.executor.emitted = c.executor.emitted
  inFlight : c'.executor.inFlight <:+ c.executor.inFlight
  entries : c'.queue.entries = c.queue.entries

omit [Scalar R] in
/-- A change of the state alone is quiet. -/
theorem Quiet.of_state (c : Course R) (state : ExecutorState) :
    c.Quiet ⟨{ c.executor with state := state }, c.queue⟩ :=
  ⟨rfl, rfl, rfl, rfl, rfl, List.suffix_rfl, rfl⟩

omit [Scalar R] in
theorem Quiet.refl (c : Course R) : c.Quiet c := .of_state c c.executor.state

theorem clearFault_quiet (c : Course R) : c.Quiet (c.after .clearFault) := by
  simp only [after, Executor.clearFault]
  split
  · exact .of_state c _
  · exact .refl c

theorem arm_quiet (c : Course R) : c.Quiet (c.after .arm) := by
  have cleared := c.clearFault_quiet
  simp only [after, Executor.arm] at cleared ⊢
  split
  · exact .refl c
  · exact .refl c
  · exact .refl c
  · split
    · exact .of_state c _
    · exact .refl c
  · exact cleared
  · exact .refl c
  · exact .refl c

/-- Only steps, completions and faults touch planning or the queue. -/
theorem after_quiet (c : Course R) {m : Move} (h : m.isQuiet) : c.Quiet (c.after m) := by
  cases m with
  | step | complete | fault => cases h
  | settle => exact ⟨rfl, rfl, rfl, rfl, rfl, List.dropWhile_suffix _, rfl⟩
  | requestStop =>
    simp only [after, Executor.requestStop]
    split
    all_goals exact .of_state c _
  | drain =>
    simp only [after, Executor.drain]
    split
    · exact ⟨rfl, rfl, rfl, rfl, rfl, List.nil_suffix, rfl⟩
    · exact .refl c
  | arm => exact c.arm_quiet
  | clearFault => exact c.clearFault_quiet
  | spend ms => exact ⟨rfl, rfl, rfl, rfl, rfl, List.suffix_rfl, rfl⟩
  | setReady ready => exact ⟨rfl, rfl, rfl, rfl, rfl, List.suffix_rfl, rfl⟩

theorem emission?_eq_some {c : Course R} {s : Session R} {plan : LinePlan R} (emits : c.emits)
    (session : c.executor.session = some s)
    (planned : s.planAt? c.executor.context c.executor.pose s.cursor = some plan) :
    c.emission? = some ⟨s.cursor, plan⟩ := by
  simp [emission?, emits, session, planned]

theorem emission?_eq_none {c : Course R} (quiet : c.emits = false) : c.emission? = none := by
  simp [emission?, quiet]

/-- A step queues the line under the cursor whole, or it is quiet and leaves the queue as it is. -/
theorem step_cases (c : Course R) :
    (∃ s plan q', c.executor.session = some s ∧ s.cursor < s.lines.length ∧
      s.planAt? c.executor.context c.executor.pose s.cursor = some plan ∧
      c.queue.pushAll (some s.cursor) plan.primitives = .ok q' ∧
      c.emits = true ∧ c.after .step = ⟨c.executor.advance s plan, q'⟩) ∨
    c.emits = false ∧ c.Quiet (c.after .step) ∧ (c.after .step).queue = c.queue := by
  have stepped := c.executor.step_stepped c.queue
  simp only [after, emits]
  generalize c.executor.step c.queue = r at stepped ⊢
  rcases stepped with ⟨session, -, cursor, planned, pushed⟩ | - | - | - | - | -
  · rename_i s plan q'
    have emits : (if plan.pauses then StepOutcome.pause else .advanced).emits = true := by
      split <;> rfl
    exact .inl ⟨s, plan, q', session, cursor, planned, pushed, emits, rfl⟩
  · exact .inr ⟨rfl, .of_state c _, rfl⟩
  · exact .inr ⟨rfl, .of_state c _, rfl⟩
  · exact .inr ⟨rfl, .refl c, rfl⟩
  · exact .inr ⟨rfl, .of_state c _, rfl⟩
  · exact .inr ⟨rfl, .refl c, rfl⟩

end Course

/-! ## A bench -/

namespace Bench

/-- A layer with one row, over whole numbers. -/
def layer : Layer Whole :=
  ⟨"X", 2, 1, 0, none, ⟨1⟩, ⟨0⟩, ⟨1⟩, ⟨.bottomLeft, .clockwise⟩⟩

/-- The machine as built, with a table for the layer. -/
def executor : Executor Whole :=
  .make ⟨⟨.standard, .standard, .standard⟩, .standard⟩ [layer]
    ⟨[], [("X", ⟨"X", ⟨0⟩, ⟨0⟩, []⟩)]⟩

/-- A move, a line that only sets the feed, and a move with a pause after it. -/
def recipe : Recipe Whole where
  layer := "X"
  lines := [⟨1, none, [.move ⟨some ⟨3⟩, some ⟨4⟩, none⟩ none], 1⟩, ⟨2, some ⟨100⟩, [], 2⟩,
    ⟨3, none, [.move ⟨none, some ⟨0⟩, none⟩ none, .pause], 3⟩]
  hash := ""

/-- The executor with the recipe. -/
def loaded : Executor Whole := (executor.install (.empty []) none recipe 0).2

theorem install_eq : executor.install (.empty []) none recipe 0 = (.ok (), loaded) := rfl

end Bench

end Winding

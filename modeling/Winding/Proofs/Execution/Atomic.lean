import Winding.Proofs.Execution.Operations

/-!
# Steps and manual moves are atomic

A step takes the line under the cursor whole, or it leaves everything but the state of the executor
as it was (`Course.StepsTo`); a step that found no room succeeds once the queue has run empty. A
manual move puts one primitive on the queue and adopts the pose that was planned for it, or nothing
happens (`Course.Adopts`). Both are said together in `Course.moves_atomic`.
-/

namespace Winding

variable {R : Type} [Scalar R]

/-! ## Lines that fit -/

namespace Executor

variable {x : Executor R} {q : Queue R} {s : Session R} {plan : LinePlan R}

/-- A plan that fits is queued. -/
theorem emit_eq_ok (x : Executor R) (s : Session R) (fits : plan.primitives.length ≤ q.free) :
    x.emit q s plan = (.ok (if plan.pauses then .pause else .advanced), x.advance s plan,
      { q with
        entries := q.entries ++ Queue.number q.submitted (some s.cursor) plan.primitives
        submitted := q.submitted + plan.primitives.length }) := by
  have capacity : ¬q.capacity < plan.primitives.length := by
    have : q.free ≤ q.capacity := Nat.sub_le _ _
    omega
  simp only [emit, if_neg capacity, Queue.pushAll, if_neg (Nat.not_lt.mpr fits)]

/-- A step is blocked by the queue when the plan of its line fits, but not now. -/
theorem step_queueFull (full : (x.step q).1 = .ok (.blocked .queueFull)) :
    ∃ s line plan, x.Plans q s line ∧
      planLine x.context (some s.table) x.pose line = .ok plan ∧
      plan.primitives.length ≤ q.capacity ∧ (x.step q).2.1 = { x with state := .blocked } := by
  rcases x.plans_or_unplanned q with ⟨s, line, plans⟩ | unplanned
  · rcases planned : planLine x.context (some s.table) x.pose line with e | plan
    · rw [plans.step_refused planned] at full
      cases full
    · rw [plans.step_planned planned] at full ⊢
      simp only [emit] at full ⊢
      split at full
      · cases full
      · next capacity =>
        refine ⟨s, line, plan, plans, planned, Nat.not_lt.mp capacity, ?_⟩
        rw [if_neg capacity]
        split at full
        · rfl
        · -- A line that was queued does not block.
          split at full
          · cases full
          · cases full
  · rw [full] at unplanned
    cases unplanned

/-- Once the queue has run empty, the line that did not fit is queued. -/
theorem step_unblocked (full : (x.step q).1 = .ok (.blocked .queueFull)) {q' : Queue R}
    (capacity : q'.capacity = q.capacity) (empty : q'.entries = []) (ready : q'.ready = true) :
    ((x.step q).2.1.step q').1 = .ok .advanced ∨ ((x.step q).2.1.step q').1 = .ok .pause := by
  obtain ⟨s, line, plan, plans, planned, fits, blocked⟩ := step_queueFull full
  have plans' : Plans { x with state := .blocked } q' s line :=
    ⟨plans.session, rfl, plans.line, ready⟩
  have room : plan.primitives.length ≤ q'.free := by
    rw [Queue.free, Queue.length, empty, capacity]
    exact fits
  have queued := plans'.step_planned planned
  rw [emit_eq_ok _ s room] at queued
  rw [blocked, queued]
  cases plan.pauses with
  | false => exact .inl rfl
  | true => exact .inr rfl

end Executor

/-! ## Steps -/

namespace Course

/-- The line under the cursor was queued whole, behind what waited, and the cursor moved past it. -/
def Takes (k k' : Course R) (pauses : Bool) : Prop :=
  ∃ s line plan, k.executor.session = some s ∧ s.lines[s.cursor]? = some line ∧
    planLine k.executor.context (some s.table) k.executor.pose line = .ok plan ∧
    plan.pauses = pauses ∧ k'.executor = k.executor.advance s plan ∧
    k'.executor.line? = some (s.cursor + 1) ∧
    k'.queue = { k.queue with
      entries := k.queue.entries ++ Queue.number k.queue.submitted (some s.cursor) plan.primitives
      submitted := k.queue.submitted + plan.primitives.length }

/-- What a step with an outcome makes of a course. -/
def StepsTo (k k' : Course R) : Except (ExecutorError R) StepOutcome → Prop
  | .ok .advanced => k.Takes k' false
  | .ok .pause => k.Takes k' true
  | .ok (.blocked _) | .ok .finished | .error _ =>
    ∃ state, k' = ⟨{ k.executor with state := state }, k.queue⟩

theorem after_step_stepsTo (k : Course R) :
    k.StepsTo (k.after .step) (k.executor.step k.queue).1 := by
  have stepped := k.executor.step_stepped k.queue
  simp only [after]
  generalize k.executor.step k.queue = r at stepped ⊢
  cases stepped with
  | @queued s plan q' session planning cursor planned pushed =>
    obtain ⟨line, found, planned⟩ := Option.bind_eq_some_iff.mp planned
    have takes : k.Takes ⟨k.executor.advance s plan, q'⟩ plan.pauses :=
      ⟨s, line, plan, session, found, eq_ok_of_toOption planned, rfl, rfl, rfl,
        Queue.pushAll_eq_ok pushed⟩
    cases pauses : plan.pauses with
    | false =>
      rw [pauses] at takes
      exact takes
    | true =>
      rw [pauses] at takes
      exact takes
  | finished | blocked | failed => exact ⟨_, rfl⟩
  | stopping | refused => exact ⟨k.executor.state, rfl⟩

end Course

/-! ## Manual moves -/

/-- The operation that asks for a move. -/
def ManualMove.operation : ManualMove R → Operation R
  | .jog target velocity => .jog target velocity
  | .head side => .moveHead side
  | .latch side => .moveLatch side
  | .visit pin => .seekPin pin

namespace Course

/-- A move was queued as one primitive of no line, and its pose adopted. -/
def Adopts (k k' : Course R) (m : ManualMove R) (p : Primitive R) : Prop :=
  ∃ pose, m.Plans k.executor p pose ∧ k'.executor = { k.executor with pose := pose } ∧
    k'.queue = { k.queue with
      entries := k.queue.entries ++ [⟨k.queue.submitted, none, p⟩]
      submitted := k.queue.submitted + 1 }

theorem perform_manual (k : Course R) (m : ManualMove R) :
    k.perform m.operation = k.adopt (m.request k.executor k.queue) := by
  cases m <;> rfl

theorem adopts_of_request {k : Course R} {m : ManualMove R} {p : Primitive R} {x : Executor R}
    {q : Queue R} (h : m.request k.executor k.queue = .ok (p, x, q)) :
    k.Adopts (k.perform m.operation) m p := by
  obtain ⟨pose, planned, adopted, pushed⟩ := ManualMove.request_eq_ok h
  rw [perform_manual, h]
  exact ⟨pose, planned, adopted, Queue.push_eq_ok pushed⟩

/-- A step queues the line under the cursor whole or changes nothing but the state; when the queue
had no room, the next step on an empty queue does queue it. A manual move is queued as one primitive
or changes nothing. -/
theorem moves_atomic (k : Course R) :
    k.StepsTo (k.after .step) (k.executor.step k.queue).1 ∧
      ((k.executor.step k.queue).1 = .ok (.blocked .queueFull) →
        ∀ q : Queue R, q.capacity = k.queue.capacity → q.entries = [] → q.ready = true →
          ((k.after .step).executor.step q).1 = .ok .advanced ∨
            ((k.after .step).executor.step q).1 = .ok .pause) ∧
      ∀ m : ManualMove R,
        (∀ e, m.request k.executor k.queue = .error e → k.perform m.operation = k) ∧
          ∀ p x q, m.request k.executor k.queue = .ok (p, x, q) →
            k.Adopts (k.perform m.operation) m p := by
  refine ⟨k.after_step_stepsTo, fun full q capacity empty ready => ?_, fun m => ⟨fun e refused => ?_,
    fun p x q queued => adopts_of_request queued⟩⟩
  · exact Executor.step_unblocked full capacity empty ready
  · rw [perform_manual, refused]
    rfl

end Course

namespace Bench

/-- The third line, of two primitives, comes to a queue of two that still holds the first line. -/
def crowded : Course Whole := Course.run ⟨loaded, .empty 2⟩ [.setReady true, .step, .step]

theorem crowded_atomic :
    (crowded.executor.step crowded.queue).1 = .ok (.blocked .queueFull) ∧
      (∃ state, crowded.after .step = ⟨{ crowded.executor with state := state }, crowded.queue⟩) ∧
      ∀ q : Queue Whole, q.capacity = crowded.queue.capacity → q.entries = [] → q.ready = true →
        ((crowded.after .step).executor.step q).1 = .ok .advanced ∨
          ((crowded.after .step).executor.step q).1 = .ok .pause := by
  have full : (crowded.executor.step crowded.queue).1 = .ok (.blocked .queueFull) := rfl
  obtain ⟨stepped, unblocked, -⟩ := crowded.moves_atomic
  rw [full] at stepped
  exact ⟨full, stepped, unblocked full⟩

end Bench

end Winding

import Winding.Proofs.Execution.Atomic
import Winding.Proofs.Planning.Crossing

/-!
# Head moves that are queued

Head moves come into the queue with a line of a recipe or on their own. Either way the head crosses
the frame only from a planned position within a window of the transfer box; a crossing from anywhere
else is refused, and nothing is queued (`Course.heads_cross_within`).
-/

namespace Winding

variable {R : Type} [Scalar R]

namespace Executor

variable {x : Executor R} {q : Queue R} {s : Session R} {line : Gcode.Line R} {at_ : Location R}

/-- Only a line that is planned can be refused for a crossing. -/
theorem step_eq_crossing_error :
    (x.step q).1 = .error (.plan (.notInTransferArea at_)) ↔
      ∃ s line, x.Plans q s line ∧ line.CrossesOutside x.context (some s.table) x.pose at_ := by
  rw [step_eq_plan_error (e := .notInTransferArea at_) nofun]
  simp only [planLine_eq_crossing_error]

/-- A head move on its own is refused for a crossing like one of a line. -/
theorem moveHead_eq_crossing_error {side : Side} :
    x.moveHead q side = .error (.plan (.notInTransferArea at_)) ↔
      x.state.isRunning = false ∧ x.pose.CrossesOutside x.context.envelope.transfer side ∧
        at_ = x.pose.position := by
  have turned {e : PlanError R} :
      x.pose.headChange x.context.envelope side = .error e ↔
        x.pose.CrossesOutside x.context.envelope.transfer side ∧
          e = .notInTransferArea x.pose.position := Pose.headChange_eq_error_iff
  unfold moveHead unlessRunning
  split
  · next running => exact ⟨nofun, fun h => absurd running (Bool.eq_false_iff.mp h.1)⟩
  · next stopped =>
    have stopped : x.state.isRunning = false := Bool.eq_false_iff.mpr stopped
    constructor
    · intro refused
      rcases bind_eq_error refused with checked | ⟨⟨z, wire⟩, -, queued⟩
      · obtain ⟨e, changed, same⟩ := mapError_eq_error checked
        obtain ⟨outside, rfl⟩ := turned.mp changed
        exact ⟨stopped, outside, PlanError.notInTransferArea.inj (ExecutorError.plan.inj same)⟩
      · -- A full queue is another error.
        have queued : x.queueManual q (x.pose.withHead side z) (.head side z) =
            .error (.plan (.notInTransferArea at_)) := queued
        unfold queueManual at queued
        split at queued
        · cases queued
        · cases queued
    · rintro ⟨-, outside, rfl⟩
      rw [turned.mpr ⟨outside, rfl⟩]
      rfl

end Executor

/-- A manual move crosses within the windows if it is a head move. -/
theorem ManualMove.Plans.crosses {x : Executor R} {m : ManualMove R} {p : Primitive R}
    {pose : Pose R} (planned : m.Plans x p pose) :
    x.pose.CrossesWithin x.context.envelope.transfer [p] := by
  refine Pose.CrossesWithin.nil.concat fun side z e outside => ?_
  cases planned with
  | jog | latch | visit => cases e
  | head side' changed =>
    cases e
    have refused : x.pose.headChange x.context.envelope side = .error _ :=
      Pose.headChange_eq_error_iff.mpr ⟨outside, rfl⟩
    rw [refused] at changed
    cases changed

namespace Course

/-- What was added to the queue crosses the frame within the windows only, from the pose that is
planned before it. -/
def PushesWithin (k : Course R) (q : Queue R) : Prop :=
  ∃ line ps, q.entries = k.queue.entries ++ Queue.number k.queue.submitted line ps ∧
    k.executor.pose.CrossesWithin k.executor.context.envelope.transfer ps

theorem after_step_crosses (k : Course R) : k.PushesWithin (k.after .step).queue := by
  rcases k.step_cases with ⟨s, plan, q', -, -, planned, pushed, -, after⟩ | ⟨-, -, same⟩
  · obtain ⟨line, -, planned⟩ := Option.bind_eq_some_iff.mp planned
    rw [after]
    exact ⟨some s.cursor, plan.primitives, congrArg Queue.entries (Queue.pushAll_eq_ok pushed),
      (planLine_crosses (eq_ok_of_toOption planned)).within⟩
  · rw [same]
    exact ⟨none, [], (List.append_nil _).symm, .nil⟩

/-- Head moves are queued only where they cross the frame, if they do, from a planned position within
a window; a line or a manual move that would cross from elsewhere is refused, and nothing is
queued. -/
theorem heads_cross_within (k : Course R) :
    (k.PushesWithin (k.after .step).queue ∧
      ∀ m p x q, ManualMove.request k.executor k.queue m = .ok (p, x, q) → k.PushesWithin q) ∧
    (∀ at_, (k.executor.step k.queue).1 = .error (.plan (.notInTransferArea at_)) ↔
      ∃ s line, k.executor.Plans k.queue s line ∧
        line.CrossesOutside k.executor.context (some s.table) k.executor.pose at_) ∧
    (∀ side at_, k.executor.moveHead k.queue side = .error (.plan (.notInTransferArea at_)) ↔
      k.executor.state.isRunning = false ∧
        k.executor.pose.CrossesOutside k.executor.context.envelope.transfer side ∧
        at_ = k.executor.pose.position) ∧
    (∀ e, (k.executor.step k.queue).1 = .error e → (k.after .step).queue = k.queue) ∧
      ∀ side e, k.executor.moveHead k.queue side = .error e → k.perform (.moveHead side) = k := by
  refine ⟨⟨k.after_step_crosses, fun m p x q queued => ?_⟩,
    fun _ => Executor.step_eq_crossing_error, fun _ _ => Executor.moveHead_eq_crossing_error,
    fun e refused => ?_, fun side e refused => ?_⟩
  · obtain ⟨pose, planned, -, pushed⟩ := ManualMove.request_eq_ok queued
    exact ⟨none, [p], congrArg Queue.entries (Queue.push_eq_ok pushed), planned.crosses⟩
  · have stepped := k.after_step_stepsTo
    rw [refused] at stepped
    obtain ⟨state, same⟩ := stepped
    rw [same]
  · rw [perform, refused]
    rfl

end Course

namespace Bench

/-- A line that takes the head through the frame at the left edge, and one that would take it back
from the middle. -/
def threading : Recipe Whole where
  layer := "X"
  lines := [⟨1, none, [.move ⟨some ⟨440⟩, some ⟨100⟩, none⟩ none, .head .back], 1⟩,
    ⟨2, none, [.move ⟨some ⟨900⟩, some ⟨700⟩, none⟩ none, .head .front], 2⟩]
  hash := ""

/-- The head is through the frame, and the line that takes it back is next. -/
def threaded : Course Whole :=
  Course.run ⟨(executor.install (.empty []) none threading 0).2, .empty 8⟩ [.setReady true, .step]

theorem threaded_refused :
    threaded.queue.length = 2 ∧ threaded.executor.pose.head = .back ∧
      (∃ s line, threaded.executor.Plans threaded.queue s line ∧
        line.CrossesOutside threaded.executor.context (some s.table) threaded.executor.pose
          ⟨⟨900⟩, ⟨700⟩, ⟨434⟩⟩) ∧
      (threaded.after .step).queue = threaded.queue := by
  have refused : (threaded.executor.step threaded.queue).1 =
      .error (.plan (.notInTransferArea ⟨⟨900⟩, ⟨700⟩, ⟨434⟩⟩)) := rfl
  obtain ⟨-, outside, -, unchanged, -⟩ := threaded.heads_cross_within
  exact ⟨rfl, rfl, (outside _).mp refused, unchanged _ refused⟩

end Bench

end Winding

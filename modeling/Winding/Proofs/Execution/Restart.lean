import Winding.Proofs.Execution.Sequence
import Winding.Proofs.Planning.Resumed

/-!
# Going on with a session

Where a session was begun does not matter for what execution does (`Course.after_rebase`). So an
executor at rest goes on with its session as if it had been begun at the cursor: whatever course it
takes, a line is queued with its plan in sequence from the pose at rest
(`Executor.emission_of_rest`). From poses one of which resumes the other, these plans are alike
(`Session.plan?_alike`).
-/

namespace Winding

variable {R : Type} [Scalar R]

/-! ## The beginning of a session -/

/-- The session as if it had been begun at its cursor. -/
def Session.fromCursor (s : Session R) : Session R := { s with start := s.cursor }

namespace Executor

/-- The executor with a session that was begun at another line. -/
def rebase (start : Nat) (x : Executor R) : Executor R :=
  { x with session := x.session.map fun s => { s with start := start } }

variable {start : Nat}

omit [Scalar R] in
theorem line?_rebase (x : Executor R) : (x.rebase start).line? = x.line? := by
  unfold line? rebase
  cases x.session with
  | none => rfl
  | some s => rfl

theorem foldl_takeBack_rebase (ls : List (InFlight R)) (x : Executor R) :
    ls.foldl takeBack (x.rebase start) = (ls.foldl takeBack x).rebase start := by
  induction ls generalizing x with
  | nil => rfl
  | cons l ls ih => exact ih (x.takeBack l)

theorem fault_rebase (x : Executor R) (unfinished : Option Nat) :
    (x.rebase start).fault unfinished = (x.fault unfinished).rebase start := by
  have line : (x.rebase start).rewindLine? unfinished = x.rewindLine? unfinished := by
    rw [rewindLine?, rewindLine?, line?_rebase]
    rfl
  simp only [fault, line]
  split
  · next i _ =>
    have back : (x.rebase start).rewind i = (x.rewind i).rebase start := by
      simp only [rewind]
      rw [show (x.rebase start).inFlight = x.inFlight from rfl, foldl_takeBack_rebase]
      simp only [rebase, Option.map_map]
      rfl
    rw [back]
    rfl
  · rfl

theorem emit_rebase (x : Executor R) (q : Queue R) (s : Session R) (plan : LinePlan R) :
    (x.rebase start).emit q { s with start := start } plan =
      ((x.emit q s plan).1, (x.emit q s plan).2.1.rebase start, (x.emit q s plan).2.2) := by
  unfold emit
  split
  · rfl
  · simp only
    rcases q.pushAll (some s.cursor) plan.primitives with e | q'
    · rfl
    · rfl

theorem stepLine_rebase (x : Executor R) (q : Queue R) (s : Session R) :
    (x.rebase start).stepLine q { s with start := start } =
      ((x.stepLine q s).1, (x.stepLine q s).2.1.rebase start, (x.stepLine q s).2.2) := by
  unfold stepLine
  simp only
  split
  · rfl
  · split
    · rfl
    · rw [show (x.rebase start).context = x.context from rfl,
        show (x.rebase start).pose = x.pose from rfl]
      split
      · rfl
      · exact x.emit_rebase q s _

theorem step_rebase (x : Executor R) (q : Queue R) :
    (x.rebase start).step q =
      ((x.step q).1, (x.step q).2.1.rebase start, (x.step q).2.2) := by
  have state : (x.rebase start).state = x.state := rfl
  unfold step
  rw [state]
  cases x.state with
  | done | stopping | faulted => rfl
  | idle => rcases session : x.session with _ | s <;> simp [rebase, session]
  | ready | emitting | blocked =>
    rcases session : x.session with _ | s
    · simp [rebase, session]
    · have session' : (x.rebase start).session = some { s with start := start } := by
        rw [rebase, session]
        rfl
      simp only [session']
      exact x.stepLine_rebase q s

omit [Scalar R] in
theorem clearFault_rebase (x : Executor R) :
    (x.rebase start).clearFault = x.clearFault.map (rebase start) := by
  unfold clearFault
  rw [show (x.rebase start).state = x.state from rfl]
  split
  · rcases session : x.session with _ | s <;> simp [rebase, session, Except.map]
  · rfl

omit [Scalar R] in
theorem arm_rebase (x : Executor R) : (x.rebase start).arm = x.arm.map (rebase start) := by
  unfold arm
  rw [show (x.rebase start).state = x.state from rfl]
  cases x.state with
  | ready | emitting | blocked | stopping | done => rfl
  | idle => rcases session : x.session with _ | s <;> simp [rebase, session, Except.map]
  | faulted => exact x.clearFault_rebase

omit [Scalar R] in
theorem drain_rebase (x : Executor R) (queueEmpty : Bool) :
    (x.rebase start).drain queueEmpty =
      ((x.drain queueEmpty).1, (x.drain queueEmpty).2.rebase start) := by
  unfold drain
  rw [show (x.rebase start).state = x.state from rfl]
  split
  · rcases session : x.session with _ | s <;> simp [rebase, session]
  · rfl

end Executor

namespace Course

/-- The course with a session that was begun at another line. -/
def rebase (start : Nat) (c : Course R) : Course R := { c with executor := c.executor.rebase start }

theorem after_rebase (start : Nat) (c : Course R) (m : Move) :
    (c.rebase start).after m = (c.after m).rebase start := by
  have kept (r : Except (ExecutorError R) (Executor R)) :
      (r.map (Executor.rebase start)).toOption.getD (c.executor.rebase start) =
        (r.toOption.getD c.executor).rebase start := by
    rcases r with e | x
    · rfl
    · rfl
  cases m with
  | complete | settle | spend | setReady => rfl
  | step =>
    simp only [after, rebase, Executor.step_rebase]
  | fault => simp only [after, fault, rebase, Executor.fault_rebase]
  | requestStop =>
    simp only [after, rebase, Executor.requestStop]
    rw [show (c.executor.rebase start).state = c.executor.state from rfl]
    cases c.executor.state with
    | idle | ready | emitting | blocked | done | faulted | stopping => rfl
  | drain => simp only [after, rebase, Executor.drain_rebase]
  | arm => simp only [after, rebase, Executor.arm_rebase, kept]
  | clearFault => simp only [after, rebase, Executor.clearFault_rebase, kept]

theorem run_rebase (start : Nat) (c : Course R) (ms : List Move) :
    (c.rebase start).run ms = (c.run ms).rebase start := by
  induction ms generalizing c with
  | nil => rfl
  | cons m ms ih => rw [run_cons, run_cons, after_rebase, ih]

/-- The line that is queued, and its plan, do not depend on it. -/
theorem emission?_rebase (start : Nat) (c : Course R) :
    (c.rebase start).emission? = c.emission? := by
  have emits : (c.rebase start).emits = c.emits := by
    simp only [Course.emits, rebase, Executor.step_rebase]
  unfold emission?
  rw [emits]
  rcases session : c.executor.session with _ | s
  · simp [rebase, Executor.rebase, session]
  · simp only [rebase, Executor.rebase, session, Option.map_some, Option.bind_some]
    rfl

/-- What is queued in sequence is the plan in sequence. -/
theorem Sequential.plan_of_emission {c : Course R} {s : Session R} {context : PlanContext R}
    {pose : Pose R} (h : c.Sequential s context pose) {e : Emission R}
    (emitted : c.emission? = some e) : s.plan? context pose e.line = some e.plan := by
  unfold emission? at emitted
  split at emitted
  · rw [h.coherent.session, Option.bind_some] at emitted
    obtain ⟨plan, planned, rfl⟩ := Option.map_eq_some_iff.mp emitted
    exact h.plan_eq planned
  · cases emitted

end Course

/-- An executor at rest, with a session to go on with. -/
structure Executor.AtRest (x : Executor R) (s : Session R) : Prop where
  session : x.session = some s
  cursor_le : s.cursor ≤ s.lines.length
  inFlight : x.inFlight = []
  state : x.state ≠ .done

/-- Whatever course an executor takes from its rest, a line is queued with its plan in sequence from
the pose at rest. -/
theorem Executor.AtRest.emission {x : Executor R} {s : Session R} (rest : x.AtRest s) {q : Queue R}
    (unclaimed : ∀ e ∈ q.entries, e.line = none) (ms : List Move) {e : Emission R}
    (emitted : (Course.run ⟨x, q⟩ ms).emission? = some e) :
    s.fromCursor.plan? x.context x.pose e.line = some e.plan := by
  have session : (x.rebase s.cursor).session = some s.fromCursor := by
    rw [rebase, rest.session]
    rfl
  have begun : Course.Sequential ⟨x.rebase s.cursor, q⟩ s.fromCursor x.context x.pose :=
    { coherent := .of_rest session (Nat.le_refl _) rest.cursor_le rest.inFlight
        (Queue.motion_eq_nil_iff.mpr unclaimed) (fun done => absurd done rest.state)
      context_eq := rfl
      pose_eq := Session.poseBefore?_start (s := s.fromCursor)
      before := fun l hl => by cases rest.inFlight ▸ hl }
  obtain ⟨i, sequential⟩ := begun.run ms
  rw [show (⟨x.rebase s.cursor, q⟩ : Course R) = (⟨x, q⟩ : Course R).rebase s.cursor from rfl,
    Course.run_rebase] at sequential
  rw [← Course.emission?_rebase s.cursor] at emitted
  have planned := sequential.plan_of_emission emitted
  rwa [Session.plan?, Session.poseBefore?_cursor] at planned

/-! ## Plans in sequence from a pose that was lost in part -/

/-- Results that are there and related, or missing; what was lost may be the cause that one of them
is missing. -/
inductive Resumes.Alike {α : Type} (turned moved : Prop) (rel : α → α → Prop) :
    Option α → Option α → Prop
  | some {a a' : α} (same : rel a a') : Alike turned moved rel (some a) (some a')
  | none : Alike turned moved rel none none
  | missing (lost : turned ∨ moved) (o : Option α) : Alike turned moved rel o none
  | extra (lost : turned) (o : Option α) : Alike turned moved rel none o

namespace Resumes

variable {turned moved : Prop} {α β : Type} {rel : α → α → Prop} {rel' : β → β → Prop}

omit [Scalar R] in
theorem Agree.alike {r r' : Except (PlanError R) α} (h : Agree turned moved rel r r') :
    Alike turned moved rel r.toOption r'.toOption := by
  cases h with
  | ok same => exact .some same
  | refused e => exact .none
  | undirected lost r => exact .missing (.inr lost) _
  | uncrossed lost at_ r => exact .extra lost _
  | crossed lost at_ r => exact .missing (.inl lost) _

theorem Alike.bind {o o' : Option α} (h : Alike turned moved rel o o') {f f' : α → Option β}
    (next : ∀ a a', rel a a' → Alike turned moved rel' (f a) (f' a')) :
    Alike turned moved rel' (o.bind f) (o'.bind f') := by
  cases h with
  | some same => exact next _ _ same
  | none => exact .none
  | missing lost o => exact .missing lost _
  | extra lost o => exact .extra lost _

theorem Alike.related {a a' : α} (h : Alike turned moved rel (Option.some a) (Option.some a')) :
    rel a a' := by
  cases h with
  | some same => exact same

/-- With the head in front, the second result is there only where the first is. -/
theorem Alike.isSome_of_isSome {o o' : Option α} (h : Alike turned moved rel o o')
    (front : ¬turned) (there : o'.isSome) : o.isSome := by
  cases h with
  | some same => rfl
  | none => exact there
  | missing lost o => cases there
  | extra lost o => exact absurd lost front

/-- Where nothing was lost, either both results are there or neither is. -/
theorem Alike.isSome_eq {o o' : Option α} (h : Alike turned moved rel o o') (front : ¬turned)
    (still : ¬moved) : o'.isSome = o.isSome := by
  cases h with
  | some same => rfl
  | none => rfl
  | missing lost o => exact absurd lost (not_or.mpr ⟨front, still⟩)
  | extra lost o => exact absurd lost front

end Resumes

namespace Session

open Resumes

variable {turned moved : Prop} {context : PlanContext R} {s s' : Session R} {p p' : Pose R}

theorem planAt?_alike (lines : s'.lines = s.lines) (table : s'.table = s.table)
    (h : p.Resumes turned moved p') (i : Nat) :
    Alike turned moved (Plans turned moved) (s.planAt? context p i) (s'.planAt? context p' i) := by
  unfold planAt?
  rw [lines, table]
  rcases s.lines[i]? with _ | line
  · exact .none
  · exact (Resumes.planLine h context (some s.table) line).alike

/-- The same recipe is planned alike from a pose that was lost in part. -/
theorem plan?_alike (lines : s'.lines = s.lines) (table : s'.table = s.table)
    (start : s'.start = s.start) (h : p.Resumes turned moved p') (i : Nat) :
    Alike turned moved (Plans turned moved) (s.plan? context p i) (s'.plan? context p' i) := by
  have poses (n : Nat) : Alike turned moved (Pose.Resumes turned moved)
      (s.poseAfter? context p n) (s'.poseAfter? context p' n) := by
    induction n with
    | zero => exact .some h
    | succ n ih =>
      have plans : Alike turned moved (Plans turned moved)
          ((s.poseAfter? context p n).bind fun q => s.planAt? context q (s.start + n))
          ((s'.poseAfter? context p' n).bind fun q => s'.planAt? context q (s'.start + n)) :=
        ih.bind fun q q' h => start ▸ planAt?_alike lines table h _
      rw [poseAfter?, poseAfter?, Option.map_eq_bind, Option.map_eq_bind]
      exact plans.bind fun plan plan' same => .some same.pose
  unfold plan? poseBefore?
  rw [start]
  exact (poses _).bind fun q q' h => planAt?_alike lines table h i

end Session

end Winding

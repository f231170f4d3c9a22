import Winding.Proofs.Machine.Steering
import Winding.Proofs.Station.Runs

/-!
# The sides after a fault

An observer of a station keeps the pose that the completed primitives give, and the pose that all
primitives give that were queued outside winding (`Station.sightings`). The planned sides of the head
and the latch are those of the second pose, also after a fault has dropped primitives. They are those
of the first once everything has run, as long as no fault has dropped a turn of the head or the latch
(`Station.Run.planned_sides`).
-/

namespace Winding

variable {R : Type}

/-! ## What changed in a queue -/

namespace Queue

/-- The primitives of entries. -/
def primitives (es : List (QueueEntry R)) : List (Primitive R) := es.map QueueEntry.primitive

@[simp] theorem primitives_nil : primitives ([] : List (QueueEntry R)) = [] := rfl

@[simp] theorem primitives_append (es fs : List (QueueEntry R)) :
    primitives (es ++ fs) = primitives es ++ primitives fs :=
  List.map_append

/-- The entries of the second queue that were not given to the first. -/
def added (q q' : Queue R) : List (QueueEntry R) :=
  q'.entries.filter fun e => q.submitted ≤ e.seq

/-- The entries of the first queue that did not leave at its front, and are not in the second. -/
def dropped (q q' : Queue R) : List (QueueEntry R) :=
  (q.entries.drop (q'.completed - q.completed)).filter fun e =>
    q'.entries.all fun f => f.seq != e.seq

variable {q q' : Queue R}

/-- Nothing is dropped that is in the second queue. -/
theorem dropped_eq_nil
    (kept : ∀ e ∈ q.entries.drop (q'.completed - q.completed), e ∈ q'.entries) :
    q.dropped q' = [] := by
  refine List.filter_eq_nil_iff.mpr fun e he all => ?_
  exact absurd (List.all_eq_true.mp all e (kept e he)) (by simp)

theorem Numbered.added_eq_nil (h : q.Numbered) (old : ∀ e ∈ q'.entries, e ∈ q.entries) :
    q.added q' = [] := by
  refine List.filter_eq_nil_iff.mpr fun e he new => ?_
  exact absurd (h.below e (old e he)) (Nat.not_lt.mpr (of_decide_eq_true new))

theorem Retires.dropped (h : q.Retires q') : q.dropped q' = [] := by
  obtain ⟨k, -, entries, completed, -⟩ := h
  refine dropped_eq_nil fun e he => ?_
  rwa [completed, Nat.add_sub_cancel_left, ← entries] at he

theorem Numbered.added_retires (h : q.Numbered) (hq : q.Retires q') : q.added q' = [] := by
  obtain ⟨k, -, entries, -⟩ := hq
  refine h.added_eq_nil fun e he => ?_
  rw [entries] at he
  exact List.mem_of_mem_drop he

theorem Numbered.added_push (h : q.Numbered) {p : Primitive R} (pushed : q.push none p = .ok q') :
    q.added q' = [⟨q.submitted, none, p⟩] := by
  have old : q.entries.filter (fun e => q.submitted ≤ e.seq) = [] := h.added_eq_nil fun _ => id
  rw [push_eq_ok pushed, added, List.filter_append, old]
  simp

end Queue

/-! ## Sightings -/

/-- What an observer knows of the head and the latch. -/
structure Sightings (R : Type) where
  /-- The pose that the completed primitives give. -/
  completed : Pose R
  /-- The pose that all primitives give that were queued. -/
  queued : Pose R
  /-- The primitives that were dropped. -/
  dropped : List (Primitive R)

namespace Sightings

/-- The head and the latch are where they are planned to be. -/
def begin (pose : Pose R) : Sightings R := ⟨pose, pose, []⟩

variable [Scalar R]

/-- The queue has changed. -/
def follow (a : Sightings R) (q q' : Queue R) : Sightings R where
  completed := a.completed.afterAll (Queue.primitives (q.taken q'))
  queued := a.queued.afterAll (Queue.primitives (q.added q'))
  dropped := a.dropped ++ Queue.primitives (q.dropped q')

/-- The planned sides are those of all primitives that were queued; without a turn that was dropped,
they are those of what was completed and of what waits. -/
structure Agrees (a : Sightings R) (pose : Pose R) (q : Queue R) : Prop where
  queued : pose.SameSides a.queued
  completed : (∀ p ∈ a.dropped, p.turns = false) →
    pose.SameSides (a.completed.afterAll (Queue.primitives q.entries))

variable {a : Sightings R} {pose pose' : Pose R} {q q' : Queue R}

theorem agrees_begin (pose : Pose R) (empty : q.entries = []) : (begin pose).Agrees pose q where
  queued := .refl pose
  completed _ := by
    rw [empty]
    exact .refl pose

/-- Entries are retired. -/
theorem Agrees.retires (h : a.Agrees pose q) (numbered : q.Numbered) (hq : q.Retires q') :
    (a.follow q q').Agrees pose q' where
  queued := by
    rw [follow, numbered.added_retires hq]
    exact h.queued
  completed still := by
    simp only [follow, hq.dropped, Queue.primitives_nil, List.append_nil] at still
    have same := h.completed still
    rwa [hq.entries_eq, Queue.primitives_append, Pose.afterAll_append] at same

/-- A primitive is queued, and its pose is planned. -/
theorem Agrees.push (h : a.Agrees pose q) (numbered : q.Numbered) {p : Primitive R}
    (pushed : q.push none p = .ok q') (planned : pose'.SameSides (pose.after p)) :
    (a.follow q q').Agrees pose' q' where
  queued := by
    rw [follow, numbered.added_push pushed]
    exact planned.trans (h.queued.after p)
  completed still := by
    have left : q.taken q' = [] := Queue.taken_eq_nil (by rw [Queue.push_eq_ok pushed])
    have entries : q'.entries = q.entries ++ [⟨q.submitted, none, p⟩] := by
      rw [Queue.push_eq_ok pushed]
    have kept : q.dropped q' = [] := by
      refine Queue.dropped_eq_nil fun e he => ?_
      rw [entries]
      exact List.mem_append_left _ (List.mem_of_mem_drop he)
    simp only [follow, kept, Queue.primitives_nil, List.append_nil] at still
    simp only [follow, left, entries, Queue.primitives_append, Pose.afterAll_append]
    exact planned.trans ((h.completed still).after p)

/-- All entries are dropped, and the planned sides stay. -/
theorem Agrees.clear (h : a.Agrees pose q) (planned : pose'.SameSides pose) :
    (a.follow q q.clear.2).Agrees pose' q.clear.2 where
  queued := planned.trans h.queued
  completed still := by
    have all : q.dropped q.clear.2 = q.entries := by simp [Queue.dropped, Queue.clear]
    simp only [follow, all] at still
    obtain ⟨before, now⟩ := List.forall_mem_append.mp still
    have none : q.taken q.clear.2 = [] := Queue.taken_eq_nil rfl
    simp only [follow, none]
    exact planned.trans ((h.completed before).trans (Pose.afterAll_sameSides now _))

end Sightings

/-! ## Periods outside winding -/

/-- A position that is taken over turns nothing. -/
theorem Executor.syncPosition_sameSides (x : Executor R) (position : Location R) :
    (x.syncPosition position).pose.SameSides x.pose := by
  unfold syncPosition
  split <;> exact .refl _

namespace Machine

variable [Scalar R] {m m' : Machine R}

/-- What a period outside winding can do to the queue and to the planned sides. -/
inductive Shifts (m m' : Machine R) : Prop
  | rests (queue : m'.queue = m.queue) (pose : m'.executor.pose = m.executor.pose)
  | pushes (p : Primitive R) (pushed : m.queue.push none p = .ok m'.queue)
      (planned : m'.executor.pose.SameSides (m.executor.pose.after p))
  /-- A fault drops what is queued. -/
  | drops (queue : m'.queue = m.queue.clear.2)
      (planned : m'.executor.pose.SameSides m.executor.pose)

theorem Shifts.of_pushes {x : Executor R} {q : Queue R} (pushes : m.executor.Pushes m.queue x q)
    (queue : m'.queue = q) (executor : m'.executor = x) : m.Shifts m' := by
  obtain ⟨pose, p, ⟨pushed, planned⟩, rfl⟩ := pushes
  exact .pushes p (queue ▸ pushed) (executor ▸ planned)

theorem tick_stop_shifts (mode : m.mode = .stop) (ticked : m.tick = (.ok (), m'))
    (still : m'.mode ≠ .wind) : m.Shifts m' := by
  rcases tick_stop mode ticked with
    - | ⟨-, -, noted⟩ | ⟨pin, -, -, -, noted⟩ | ⟨-, -, -, -, noted⟩ | -
  · exact .rests rfl rfl
  · obtain ⟨records, files, rfl, -⟩ := noted
    refine absurd ?_ still
    unfold enterWind
    split <;> rfl
  · obtain ⟨records, files, rfl, -⟩ := noted
    exact .rests rfl rfl
  · obtain ⟨records, files, rfl, -⟩ := noted
    exact .rests rfl rfl
  · exact .rests rfl rfl

theorem tick_manual_shifts (mode : m.mode = .manual) (ticked : m.tick = (.ok (), m')) :
    m.Shifts m' := by
  rcases tick_manual mode ticked with
    ⟨reason, -, noted⟩ | - | ⟨-, -, pushes⟩ | ⟨message, -, -, noted⟩ | - | ⟨-, -, noted⟩
  · obtain ⟨records, files, rfl, -⟩ := noted
    exact .drops rfl (Executor.syncPosition_sameSides _ _)
  · exact .rests rfl rfl
  · exact .of_pushes pushes rfl rfl
  · obtain ⟨records, files, rfl, -⟩ := noted
    exact .rests rfl rfl
  · exact .rests rfl rfl
  · obtain ⟨records, files, rfl, -⟩ := noted
    exact .rests rfl rfl

theorem tick_calibration_shifts (mode : m.mode = .calibration) (ticked : m.tick = (.ok (), m')) :
    m.Shifts m' := by
  rcases tick_calibration mode ticked with
    ⟨reason, -, noted⟩ | ⟨error, -, noted⟩ | - | ⟨-, -, pushes⟩
  · obtain ⟨records, files, rfl, -⟩ := noted
    exact .drops rfl (Executor.syncPosition_sameSides _ _)
  · obtain ⟨records, files, rfl, -⟩ := noted
    exact .rests rfl rfl
  · exact .rests rfl rfl
  · exact .of_pushes pushes rfl rfl

theorem tick_shifts (mode : m.mode ≠ .wind) (ticked : m.tick = (.ok (), m'))
    (still : m'.mode ≠ .wind) : m.Shifts m' := by
  rcases was : m.mode with _ | _ | _ | _
  · exact tick_stop_shifts was ticked still
  · exact tick_manual_shifts was ticked
  · exact absurd was mode
  · exact tick_calibration_shifts was ticked

/-- Winding is left with an empty queue. -/
theorem Orderly.queue_of_wind (h : m.Orderly) (mode : m.mode = .wind)
    (ticked : m.tick = (.ok (), m')) (left : m'.mode ≠ .wind) : m'.queue.entries = [] := by
  rcases Machine.tick_wind mode ticked with
    ⟨-, records, files, rfl, -⟩ | ⟨error, empty, records, files, rfl, -⟩ |
    ⟨-, empty, -, records, files, -, rfl, -⟩ | idle
  · exact absurd mode left
  · exact empty
  · exact empty
  · exact absurd idle (h.wind mode).2

/-- No command moves anything. -/
theorem handled_rests {c : Operator.Command R} (h : m.Handled c m') :
    m'.mode = m.mode ∧ m'.queue = m.queue ∧ m'.executor.pose = m.executor.pose := by
  rcases h with
    - | - | @⟨x, -, -, -, armed⟩ | - | - | - | ⟨library, -, -, noted⟩ |
    ⟨library, path, -, -, -, -, noted⟩
  · exact ⟨rfl, rfl, rfl⟩
  · exact ⟨rfl, rfl, rfl⟩
  · have pose := m.course.arm_quiet.pose
    rw [Course.after, course, armed] at pose
    exact ⟨rfl, rfl, pose⟩
  · exact ⟨rfl, rfl, rfl⟩
  · exact ⟨rfl, rfl, rfl⟩
  · exact ⟨rfl, rfl, rfl⟩
  · obtain ⟨records, files, rfl, -⟩ := noted
    exact ⟨rfl, rfl, rfl⟩
  · obtain ⟨records, files, rfl, -⟩ := noted
    exact ⟨rfl, rfl, rfl⟩

end Machine

/-! ## Runs -/

namespace Station

variable {σ : Type} [Scalar R] [Adapter σ]

/-- The observer who keeps track of the head and the latch. Winding begins the account anew. -/
def sightings : Observer σ R (Sightings R) where
  initial s := .begin s.machine.executor.pose
  follow s e a :=
    let m := (s.perform e).2.machine
    if s.machine.mode = .wind ∨ m.mode = .wind then .begin m.executor.pose
    else a.follow s.machine.queue m.queue

/-- The observer, the machine and its queue agree. -/
structure Sees (s : Station σ R) (a : Sightings R) : Prop where
  orderly : s.machine.Orderly
  numbered : s.machine.queue.Numbered
  agrees : s.machine.mode ≠ .wind → a.Agrees s.machine.executor.pose s.machine.queue

variable {s₀ s s' : Station σ R} {a : Sightings R} {e : Event σ R}

theorem perform_numbered (h : s.machine.queue.Numbered) (step : s.perform e = (.ok (), s')) :
    s'.machine.queue.Numbered := by
  cases e with
  | command c => exact (Machine.handled_rests (command_eq_ok step)).2.1 ▸ h
  | dispatch =>
    cases step
    exact h.retires s.dispatch_retires
  | tick =>
    have steers := s.machine.tick_steers
    rw [tick_eq_ok step] at steers
    exact h.steers steers
  | world plc files clock now =>
    cases step
    exact h

/-- Outside winding, an event keeps the account. -/
theorem Sees.follow (h : s.Sees a) (step : s.perform e = (.ok (), s'))
    (mode : s.machine.mode ≠ .wind) (still : s'.machine.mode ≠ .wind) :
    (a.follow s.machine.queue s'.machine.queue).Agrees s'.machine.executor.pose
      s'.machine.queue := by
  have agrees := h.agrees mode
  have rests : (a.follow s.machine.queue s.machine.queue).Agrees s.machine.executor.pose
      s.machine.queue := agrees.retires h.numbered (.refl _)
  cases e with
  | command c =>
    obtain ⟨-, queue, pose⟩ := Machine.handled_rests (command_eq_ok step)
    rwa [queue, pose]
  | dispatch =>
    cases step
    exact agrees.retires h.numbered s.dispatch_retires
  | tick =>
    rcases Machine.tick_shifts mode (tick_eq_ok step) still with
      ⟨queue, pose⟩ | ⟨p, pushed, planned⟩ | ⟨queue, planned⟩
    · rwa [queue, pose]
    · exact agrees.push h.numbered pushed planned
    · rw [queue]
      exact agrees.clear planned
  | world plc files clock now =>
    cases step
    exact rests

/-- What is queued when winding is left is nothing. -/
theorem Sees.queue_of_wind (h : s.Sees a) (step : s.perform e = (.ok (), s'))
    (mode : s.machine.mode = .wind) (left : s'.machine.mode ≠ .wind) :
    s'.machine.queue.entries = [] := by
  cases e with
  | command c => exact absurd ((Machine.handled_rests (command_eq_ok step)).1.trans mode) left
  | tick => exact h.orderly.queue_of_wind mode (tick_eq_ok step) left
  | dispatch | world =>
    cases step
    exact absurd mode left

/-- An event keeps the account. -/
theorem perform_sees (h : s.Sees a) (step : s.perform e = (.ok (), s')) :
    s'.Sees (sightings.follow s e a) := by
  refine ⟨perform_orderly h.orderly step, perform_numbered h.numbered step, fun still => ?_⟩
  have after : (s.perform e).2 = s' := congrArg Prod.snd step
  simp only [sightings, after]
  by_cases mode : s.machine.mode = .wind
  · rw [if_pos (.inl mode)]
    exact Sightings.agrees_begin _ (h.queue_of_wind step mode still)
  · rw [if_neg (not_or.mpr ⟨mode, still⟩)]
    exact h.follow step mode still

theorem Run.sees (begins : s₀.Begins) (run : Run sightings s₀ s a) : s.Sees a := by
  refine run.invariant ?_ fun _ _ _ _ h step => perform_sees h step
  have start := begins.atStart
  refine ⟨.of_stop start.mode start.queue start.start, ?_, fun _ => ?_⟩
  · constructor
    · rw [start.queue]
      exact .nil
    · rw [start.queue]
      exact List.forall_mem_nil _
  · exact Sightings.agrees_begin _ start.queue

/-- Outside winding the planned sides of the head and the latch are those that all primitives give
that were queued, also of those that a fault has dropped. As long as no turn of the head or the latch
was dropped, they are those of what was completed and of what waits; then a head move is refused
exactly when it crosses the frame, from the side where the head is once that has run, outside the
transfer area. -/
theorem Run.planned_sides (begins : s₀.Begins) (run : Run sightings s₀ s a)
    (mode : s.machine.mode ≠ .wind) :
    s.machine.executor.pose.SameSides a.queued ∧
    ((∀ p ∈ a.dropped, p.turns = false) →
      let real := a.completed.afterAll (Queue.primitives s.machine.queue.entries)
      s.machine.executor.pose.SameSides real ∧ ∀ env side,
        (∃ e, s.machine.executor.pose.headChange env side = .error e) ↔
          side.crosses real.head = true ∧
            env.transfer.inArea s.machine.executor.pose.position = false) := by
  have agrees := (run.sees begins).agrees mode
  refine ⟨agrees.queued, fun still => ⟨agrees.completed still, fun env side => ?_⟩⟩
  rw [Pose.headChange_eq_error, (agrees.completed still).1]

/-- The latch is asked to turn on the bench, and then a jog is asked for. After some cycles of the
dispatcher the controller fails. -/
def benchTurn (cycles : Nat) : List (Event Bench.Plc Whole) :=
  [.dispatch, .command (.latch .back), .command (.jog ⟨⟨3⟩, ⟨4⟩, ⟨0⟩⟩ none), .tick, .tick, .tick] ++
    List.replicate cycles .dispatch ++ [Bench.connect false, .dispatch, .tick]

/-- On the bench, a fault that drops only the jog leaves the latch planned where it is. -/
theorem bench_jog_dropped :
    ∃ (s : Station Bench.Plc Whole) (a : Sightings Whole), Run sightings Bench.station s a ∧
      a.dropped.length = 1 ∧ a.completed.latch = .back ∧
        s.machine.executor.pose.SameSides a.completed := by
  have reached : (Bench.station.performAll sightings (sightings.initial Bench.station)
      (benchTurn 3)).any (fun (s, a) => s.machine.mode = .stop ∧ s.machine.queue.isEmpty ∧
        a.dropped.length = 1 ∧ a.completed.latch = .back ∧ ∀ p ∈ a.dropped, p.turns = false) =
      true := by
    decide +kernel
  obtain ⟨⟨s, a⟩, performed, facts⟩ := (Option.any_eq_true ..).mp reached
  obtain ⟨mode, empty, one, latch, still⟩ := of_decide_eq_true facts
  have run := Run.start.performAll performed
  have planned := (run.planned_sides Bench.station_begins (by rw [mode]; decide)).2 still
  rw [List.isEmpty_iff.mp empty] at planned
  exact ⟨s, a, run, one, latch, planned.1⟩

/-- On the bench, a fault that drops the turn of the latch leaves it planned where it never got. -/
theorem bench_turn_dropped :
    ¬∀ (s : Station Bench.Plc Whole) (a : Sightings Whole), Run sightings Bench.station s a →
      s.machine.mode ≠ .wind → s.machine.queue.entries = [] →
      s.machine.executor.pose.SameSides a.completed := by
  intro left
  have reached : (Bench.station.performAll sightings (sightings.initial Bench.station)
      (benchTurn 0)).any (fun (s, a) => s.machine.mode = .stop ∧ s.machine.queue.isEmpty ∧
        ¬s.machine.executor.pose.SameSides a.completed) = true := by
    decide +kernel
  obtain ⟨⟨s, a⟩, performed, facts⟩ := (Option.any_eq_true ..).mp reached
  obtain ⟨mode, empty, differ⟩ := of_decide_eq_true facts
  exact differ (left s a (Run.start.performAll performed) (by rw [mode]; decide)
    (List.isEmpty_iff.mp empty))

end Station

end Winding

import Winding.Proofs.Machine.Requests
import Winding.Proofs.Station.Runs

/-!
# What becomes of the session

Only loading a recipe replaces the session: winding moves its cursor, and nothing else of it changes
(`Machine.tick_carries`). Winding begins on a start that waits (`Machine.tick_enters_wind`), and a
visit queues one move, to where the session's table has the pin (`Machine.tick_seeks`).
-/

namespace Winding

variable {R : Type}

/-! ## Sessions -/

/-- The same recipe with the same calibration, and perhaps another line to go on from. -/
def Session.SameRecipe (s s' : Session R) : Prop := s' = { s with cursor := s'.cursor }

theorem Session.SameRecipe.refl (s : Session R) : s.SameRecipe s := rfl

theorem Session.SameRecipe.trans {s s' s'' : Session R} (h : s.SameRecipe s')
    (h' : s'.SameRecipe s'') : s.SameRecipe s'' := by
  rw [SameRecipe] at h h' ⊢
  rw [h', h]

theorem Session.SameRecipe.table {s s' : Session R} (h : s.SameRecipe s') : s'.table = s.table := by
  rw [h]

variable [Scalar R]

/-- Faults move the cursor and nothing else of a session. -/
theorem Executor.fault_session {x : Executor R} {line : Option Nat} {s' : Session R}
    (h : (x.fault line).session = some s') : ∃ s, x.session = some s ∧ s.SameRecipe s' := by
  unfold fault at h
  simp only at h
  split at h
  · rw [rewind, foldl_takeBack_session] at h
    obtain ⟨s, session, rfl⟩ := Option.map_eq_some_iff.mp h
    exact ⟨s, session, rfl⟩
  · exact ⟨s', h, rfl⟩

namespace Course

/-- A move changes the cursor and nothing else of a session. -/
theorem after_session {c : Course R} {m : Move} {s' : Session R}
    (h : (c.after m).executor.session = some s') :
    ∃ s, c.executor.session = some s ∧ s.SameRecipe s' := by
  rcases m.kinds with rfl | ⟨seq, rfl⟩ | rfl | quiet
  · rcases c.step_cases with ⟨s, plan, q, session, -, -, -, -, e⟩ | ⟨-, quiet, -⟩
    · rw [e] at h
      obtain rfl := Option.some.inj h
      exact ⟨s, session, rfl⟩
    · exact ⟨s', quiet.session.symm.trans h, .refl s'⟩
  · exact ⟨s', h, .refl s'⟩
  · exact Executor.fault_session h
  · exact ⟨s', (c.after_quiet quiet).session.symm.trans h, .refl s'⟩

theorem run_session {c : Course R} {ms : List Move} {s' : Session R}
    (h : (c.run ms).executor.session = some s') :
    ∃ s, c.executor.session = some s ∧ s.SameRecipe s' := by
  induction ms generalizing c with
  | nil => exact ⟨s', h, .refl s'⟩
  | cons m ms ih =>
    obtain ⟨s₁, session, same⟩ := ih h
    obtain ⟨s, session', same'⟩ := after_session session
    exact ⟨s, session', same'.trans same⟩

end Course

/-! ## Periods -/

namespace Machine

variable {m m' : Machine R}

omit [Scalar R] in
/-- No start waits any more, and of the session only the cursor may have changed. -/
structure Carries (m m' : Machine R) : Prop where
  start : m'.startRequested = false
  session : ∀ s', m'.executor.session = some s' →
    ∃ s, m.executor.session = some s ∧ s.SameRecipe s'

omit [Scalar R] in
theorem Carries.of_same (start : m'.startRequested = false)
    (session : m'.executor.session = m.executor.session) : m.Carries m' :=
  ⟨start, fun s' h => ⟨s', session.symm.trans h, .refl s'⟩⟩

theorem tick_stop_carries (mode : m.mode = .stop) (ticked : m.tick = (.ok (), m')) :
    m.Carries m' := by
  rcases tick_stop mode ticked with
    - | ⟨-, -, noted⟩ | ⟨pin, -, start, -, noted⟩ | ⟨-, start, -, -, noted⟩ | ⟨start, -, -⟩
  · exact .of_same rfl rfl
  · obtain ⟨records, files, rfl, -⟩ := noted
    unfold enterWind
    split <;> exact .of_same rfl rfl
  · obtain ⟨records, files, rfl, -⟩ := noted
    exact .of_same start rfl
  · obtain ⟨records, files, rfl, -⟩ := noted
    exact .of_same start rfl
  · exact .of_same start rfl

theorem tick_manual_carries (mode : m.mode = .manual) (start : m.startRequested = false)
    (ticked : m.tick = (.ok (), m')) : m.Carries m' := by
  rcases tick_manual mode ticked with
    ⟨reason, -, noted⟩ | - | ⟨-, -, pushes⟩ | ⟨message, -, -, noted⟩ | - | ⟨-, -, noted⟩
  · obtain ⟨records, files, rfl, -⟩ := noted
    exact .of_same start (m.executor.syncPosition_fields m.status.position).1
  · exact .of_same start rfl
  · obtain ⟨pose, p, -, rfl⟩ := pushes
    exact .of_same start rfl
  · obtain ⟨records, files, rfl, -⟩ := noted
    exact .of_same start rfl
  · exact .of_same start rfl
  · obtain ⟨records, files, rfl, -⟩ := noted
    exact .of_same start rfl

theorem tick_calibration_carries (mode : m.mode = .calibration) (start : m.startRequested = false)
    (ticked : m.tick = (.ok (), m')) : m.Carries m' := by
  rcases tick_calibration mode ticked with
    ⟨reason, -, noted⟩ | ⟨error, -, noted⟩ | - | ⟨-, -, pushes⟩
  · obtain ⟨records, files, rfl, -⟩ := noted
    exact .of_same start (m.executor.syncPosition_fields m.status.position).1
  · obtain ⟨records, files, rfl, -⟩ := noted
    exact .of_same start rfl
  · exact .of_same start rfl
  · obtain ⟨pose, p, -, rfl⟩ := pushes
    exact .of_same start rfl

theorem tick_wind_carries (mode : m.mode = .wind) (state : m.executor.state ≠ .idle)
    (start : m.startRequested = false) (ticked : m.tick = (.ok (), m')) : m.Carries m' := by
  have wound : ∀ s', m.windCourse.executor.session = some s' →
      ∃ s, m.executor.session = some s ∧ s.SameRecipe s' := fun _ => Course.run_session
  rcases tick_wind mode ticked with
    ⟨-, records, files, rfl, -⟩ | ⟨error, -, records, files, rfl, -⟩ |
    ⟨-, -, -, records, files, -, rfl, -⟩ | idle
  · exact ⟨start, wound⟩
  · exact ⟨start, wound⟩
  · exact ⟨start, nofun⟩
  · exact absurd idle state

/-- A period leaves no start waiting, and changes only the cursor of the session. -/
theorem tick_carries (orderly : m.Orderly) (ticked : m.tick = (.ok (), m')) : m.Carries m' := by
  rcases mode : m.mode with _ | _ | _ | _
  · exact tick_stop_carries mode ticked
  · exact tick_manual_carries mode (orderly.start_of_ne (by rw [mode]; decide)) ticked
  · exact tick_wind_carries mode (orderly.wind mode).2 (orderly.start_of_ne (by rw [mode]; decide))
      ticked
  · exact tick_calibration_carries mode (orderly.start_of_ne (by rw [mode]; decide)) ticked

/-- A mode is left only for stop. -/
theorem tick_stays_or_stops (orderly : m.Orderly) (mode : m.mode ≠ .stop)
    (ticked : m.tick = (.ok (), m')) : m'.mode = m.mode ∨ m'.mode = .stop := by
  rcases was : m.mode with _ | _ | _ | _
  · exact absurd was mode
  · rcases tick_manual was ticked with
      ⟨reason, -, noted⟩ | - | - | ⟨message, -, -, noted⟩ | - | ⟨-, -, noted⟩
    · obtain ⟨records, files, rfl, -⟩ := noted
      exact .inr rfl
    · exact .inl was
    · exact .inl was
    · obtain ⟨records, files, rfl, -⟩ := noted
      exact .inl was
    · exact .inl was
    · obtain ⟨records, files, rfl, -⟩ := noted
      exact .inr rfl
  · rcases tick_wind was ticked with
      ⟨-, records, files, rfl, -⟩ | ⟨error, -, records, files, rfl, -⟩ |
      ⟨-, -, -, records, files, -, rfl, -⟩ | idle
    · exact .inl was
    · exact .inr rfl
    · exact .inr rfl
    · exact absurd idle (orderly.wind was).2
  · rcases tick_calibration was ticked with
      ⟨reason, -, noted⟩ | ⟨error, -, noted⟩ | - | -
    · obtain ⟨records, files, rfl, -⟩ := noted
      exact .inr rfl
    · obtain ⟨records, files, rfl, -⟩ := noted
      exact .inr rfl
    · exact .inl was
    · exact .inl was

/-- Winding begins when a start was asked for, with the session that is loaded. -/
theorem tick_enters_wind (orderly : m.Orderly) (mode : m.mode ≠ .wind)
    (ticked : m.tick = (.ok (), m')) (winds : m'.mode = .wind) :
    m.startRequested = true ∧ m'.executor.session = m.executor.session := by
  have stopped : m.mode = .stop := by
    by_contra moving
    rcases tick_stays_or_stops orderly moving ticked with same | stop
    · exact mode (same.symm.trans winds)
    · cases stop.symm.trans winds
  rcases tick_stop stopped ticked with
    - | ⟨-, start, noted⟩ | ⟨pin, -, -, -, noted⟩ | ⟨-, -, -, -, noted⟩ | -
  · cases stopped.symm.trans winds
  · obtain ⟨records, files, rfl, -⟩ := noted
    refine ⟨start, ?_⟩
    unfold enterWind
    split <;> rfl
  · obtain ⟨records, files, rfl, -⟩ := noted
    cases winds
  · obtain ⟨records, files, rfl, -⟩ := noted
    cases winds
  · cases stopped.symm.trans winds

/-! ## Visits -/

end Machine

/-- The move to a pin goes to where the session's table has it. -/
theorem Executor.seekPin_eq_ok {x x' : Executor R} {q q' : Queue R} {pin : Pin} {p : Primitive R}
    (h : x.seekPin q pin = .ok (p, x', q')) :
    ∃ s target limits, x.session = some s ∧ s.table.resolve pin = .ok target ∧
      q'.entries = q.entries ++ [⟨q.submitted, none, .move target limits⟩] := by
  obtain ⟨pose, planned, -, pushed⟩ := ManualMove.request_eq_ok (m := .visit pin) h
  cases planned with
  | visit _ session resolved => exact ⟨_, _, _, session, resolved, by rw [Queue.push_eq_ok pushed]⟩

namespace Machine

variable {m m' : Machine R}

/-- What a visit to a pin queues is the move to where the session's table has the pin. -/
theorem tick_seeks (mode : m.mode = .calibration) (ticked : m.tick = (.ok (), m'))
    (pushed : m.queue.submitted < m'.queue.submitted) :
    ∃ pin s target limits, m.visit = .wanted pin ∧ m.executor.session = some s ∧
      s.table.resolve pin = .ok target ∧
      m'.queue.entries = m.queue.entries ++ [⟨m.queue.submitted, none, .move target limits⟩] := by
  obtain ⟨next, m₁, updated, after⟩ := tick_eq_ok ticked
  have update : m.update = m.updateCalibration := by rw [update, mode]
  have left {m₂ : Machine R} (goes : m₂.transition .stop = (.ok (), m'))
      (mode₂ : m₂.mode = .calibration)
      (same : m₂.queue.submitted = m.queue.submitted) : False := by
    obtain ⟨records, files, rfl, -⟩ := transition_of_calibration goes mode₂
    exact absurd pushed (same ▸ Nat.lt_irrefl _)
  rw [update, updateCalibration] at updated
  split at updated
  · obtain ⟨_, failed, rfl⟩ := Outcome.as_eq_ok updated
    obtain ⟨records, files, rfl, -⟩ := motionFault_eq_ok failed
    exact (left after mode rfl).elim
  · split at updated
    · cases updated
      exact (left after mode rfl).elim
    · next pin wanted =>
      split at updated
      · cases updated
        exact (left after mode rfl).elim
      · unfold visitPin at updated
        split at updated
        · cases updated
          obtain rfl : m' = _ := after
          exact absurd pushed (Nat.lt_irrefl _)
        · split at updated
          · next sought =>
            cases updated
            obtain rfl : m' = _ := after
            obtain ⟨s, target, limits, session, resolved, entries⟩ := Executor.seekPin_eq_ok sought
            exact ⟨pin, s, target, limits, wanted, session, resolved, entries⟩
          · cases updated
            exact (left after mode rfl).elim
    · split at updated
      · cases updated
        exact (left after mode rfl).elim
      · cases updated
        obtain rfl : m' = _ := after
        exact absurd pushed (Nat.lt_irrefl _)

/-! ## Commands -/

/-- A start that is not answered with `ok` changes nothing. -/
theorem start_cases (m : Machine R) :
    m.start.1 ≠ "ok" ∧ m.start.2 = m ∨
    m.start.1 = "ok" ∧ ∃ x s, m.executor.session = some s ∧ x.session = some s ∧
      m.start.2 = { m with executor := x, stopRequested := false, startRequested := true } := by
  unfold start
  split
  · exact .inl ⟨refusal_ne_ok _, rfl⟩
  · split
    · exact .inl ⟨refusal_ne_ok _, rfl⟩
    · split
      · exact .inl ⟨refusal_ne_ok _, rfl⟩
      · next loaded =>
        split
        · exact .inl ⟨refusal_ne_ok _, rfl⟩
        · split
          · exact .inl ⟨refusal_ne_ok _, rfl⟩
          · next x armed =>
            obtain ⟨s, session⟩ : ∃ s, m.executor.session = some s :=
              Option.ne_none_iff_exists'.mp (by simpa using loaded)
            have same := m.course.arm_quiet.session
            rw [Course.after, course, armed] at same
            exact .inr ⟨rfl, x, s, session, same.trans session, rfl⟩

/-- The orders that wait, and the session, are the same. -/
structure SameOrders (m m' : Machine R) : Prop where
  session : m'.executor.session = m.executor.session
  start : m'.startRequested = m.startRequested
  calibration : m'.pendingCalibration = m.pendingCalibration
  visit : m'.visit = m.visit

/-- Other commands leave the orders and the session alone. -/
theorem Handled.sameOrders {c : Operator.Command R} (h : m.Handled c m')
    (none : m.loads? c = none) (start : c ≠ .start) (stop : c ≠ .stop) (shutdown : c ≠ .shutdown)
    (visit : ∀ pin, c = .calibrate pin → m.accepts c = false) : m.SameOrders m' := by
  rcases h with
    - | - | - | - | ⟨pin, accepted, -, -, -⟩ | - | ⟨library, -, -, noted⟩ |
    ⟨library, path, -, loaded, -, -, -⟩
  · exact ⟨rfl, rfl, rfl, rfl⟩
  · exact absurd rfl stop
  · exact absurd rfl start
  · exact ⟨rfl, rfl, rfl, rfl⟩
  · cases (visit pin rfl).symm.trans accepted
  · exact absurd rfl shutdown
  · obtain ⟨records, files, rfl, -⟩ := noted
    exact ⟨rfl, rfl, rfl, rfl⟩
  · cases none.symm.trans loaded

end Machine

end Winding

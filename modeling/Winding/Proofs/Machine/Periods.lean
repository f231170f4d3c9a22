import Winding.Proofs.Execution.Manual
import Winding.Proofs.Machine.Filing
import Winding.Proofs.Motion.Recipe

/-!
# Periods without winding

What one period can do while the machine is stopped (`Machine.StopPeriod`), in manual motion
(`Machine.ManualPeriod`) or visiting a pin (`Machine.CalibrationPeriod`), up to what is noted.
-/

namespace Winding

variable {R : Type} [Scalar R]

/-! ## Single motions -/

/-- The executor and the queue after one manual motion was queued. The planned sides of the head and
the latch are those after the motion. -/
def Executor.Pushes (x : Executor R) (q : Queue R) (x' : Executor R) (q' : Queue R) : Prop :=
  ∃ pose p, (q.push none p = .ok q' ∧ pose.SameSides (x.pose.after p)) ∧
    x' = { x with pose := pose }

namespace Executor

variable {x x' : Executor R} {q q' : Queue R} {p : Primitive R}

/-- Manual motion is no motion of a recipe. -/
theorem Pushes.motion (h : x.Pushes q x' q') :
    Queue.motion q'.entries = Queue.motion q.entries := by
  obtain ⟨pose, p, ⟨pushed, -⟩, -⟩ := h
  rw [Queue.push_eq_ok pushed, Queue.motion_append]
  exact List.append_nil _

theorem Pushes.of_request {m : ManualMove R} (h : m.request x q = .ok (p, x', q')) :
    x.Pushes q x' q' := by
  obtain ⟨pose, planned, adopted, pushed⟩ := ManualMove.request_eq_ok h
  exact ⟨pose, p, ⟨pushed, planned.sameSides⟩, adopted⟩

theorem seekPin_pushes {pin : Pin} (h : x.seekPin q pin = .ok (p, x', q')) : x.Pushes q x' q' :=
  .of_request (m := .visit pin) h

omit [Scalar R] in
/-- A position that is taken over changes only the pose. -/
theorem syncPosition_fields (x : Executor R) (position : Location R) :
    (x.syncPosition position).session = x.session ∧
      (x.syncPosition position).inFlight = x.inFlight ∧
      (x.syncPosition position).state = x.state := by
  unfold syncPosition
  split <;> exact ⟨rfl, rfl, rfl⟩

end Executor

namespace Machine

variable {m m' m'' : Machine R}

theorem queueRequest_pushes {request : ManualRequest R} {p : Primitive R} {x : Executor R}
    {q : Queue R} (h : m.queueRequest request = .ok (p, x, q)) :
    m.executor.Pushes m.queue x q := by
  cases request with
  | jog target velocity => exact .of_request (m := .jog target velocity) h
  | head side => exact .of_request (m := .head side) h
  | latch side => exact .of_request (m := .latch side) h

/-! ## Stopped -/

omit [Scalar R] in
/-- The machine that was stopped. -/
def stopped (m : Machine R) : Machine R := { m with mode := .stop, stopRequested := false }

/-- What a period can do while the machine is stopped. -/
inductive StopPeriod (m : Machine R) : Machine R → Prop
  /-- After a shutdown was asked for, everything that waits is dropped. -/
  | refused (shutdown : m.shutdownRequested = true) :
      StopPeriod m { m with
        stopRequested := false, startRequested := false, pendingManual := []
        pendingCalibration := none }
  | starts {m' : Machine R} (shutdown : m.shutdownRequested = false)
      (start : m.startRequested = true)
      (noted : Noted { m with stopRequested := false, startRequested := false, mode := .wind } m') :
      StopPeriod m m'.enterWind
  | visits {m' : Machine R} (pin : Pin) (shutdown : m.shutdownRequested = false)
      (start : m.startRequested = false) (asked : m.pendingCalibration = some pin)
      (noted : Noted { m with
        stopRequested := false, mode := .calibration, pendingCalibration := none
        visit := .wanted pin } m') : StopPeriod m m'
  | moves {m' : Machine R} (shutdown : m.shutdownRequested = false)
      (start : m.startRequested = false) (none : m.pendingCalibration = none) (asked : m.pendingManual ≠ [])
      (noted : Noted { m with stopRequested := false, mode := .manual } m') : StopPeriod m m'
  | rests (start : m.startRequested = false) (none : m.pendingCalibration = none)
      (nil : m.pendingManual = []) : StopPeriod m { m with stopRequested := false }

theorem tick_stop (mode : m.mode = .stop) (h : m.tick = (.ok (), m')) : m.StopPeriod m' := by
  obtain ⟨next, m₁, updated, goes⟩ := tick_eq_ok h
  have update : m.update = m.updateStop := by rw [update, mode]
  rw [update, updateStop] at updated
  split at updated
  · next shutdown =>
    cases updated
    obtain rfl : m' = _ := goes
    exact .refused shutdown
  · next shutdown =>
    have shutdown := eq_false_of_ne_true shutdown
    split at updated
    · next start =>
      cases updated
      obtain ⟨m₂, ⟨records, files, rfl, same⟩, rfl⟩ := transition_of_stop goes mode (by decide)
      exact .starts shutdown start ⟨records, files, rfl, same⟩
    · next start =>
      have start := eq_false_of_ne_true start
      split at updated
      · next asked =>
        obtain ⟨pin, asked⟩ := Option.isSome_iff_exists.mp asked
        cases updated
        obtain ⟨m₂, ⟨records, files, rfl, same⟩, rfl⟩ := transition_of_stop goes mode (by decide)
        refine .visits pin shutdown start asked ⟨records, files, ?_, same⟩
        simp only [enter, enterCalibration, show m.pendingCalibration = some pin from asked]
        rfl
      · next none =>
        have none := Option.not_isSome_iff_eq_none.mp none
        split at updated
        · next nil =>
          cases updated
          obtain rfl : m' = _ := goes
          exact .rests start none (List.isEmpty_iff.mp nil)
        · next asked =>
          cases updated
          obtain ⟨m₂, ⟨records, files, rfl, same⟩, rfl⟩ := transition_of_stop goes mode (by decide)
          exact .moves shutdown start none (fun nil => asked (List.isEmpty_iff.mpr nil))
            ⟨records, files, rfl, same⟩

/-! ## Manual motion -/

/-- Manual motion leaves for stop. -/
theorem transition_of_manual (h : m.transition .stop = (.ok (), m'))
    (mode : m.mode = .manual) : m.stopped.Noted m' := by
  obtain ⟨m₁, m₂, left, ⟨records, files, rfl, same⟩, rfl⟩ := transition_eq_ok h (by rw [mode]; decide)
  rw [leave, mode] at left
  cases left
  exact ⟨records, files, rfl, same⟩

/-- The machine that drops its motion because of a fault of the controller, outside winding. -/
def droppingMotion (m : Machine R) (message : String) : Machine R :=
  (m.withMotion (m.executor.syncPosition m.status.position) m.queue.clear.2).withRecord
    fun r => r.withFault m.now "plc" message none

theorem motionFault_eq (m : Machine R) (source message : String) :
    m.motionFault source message = (m.droppingMotion message).save.andThen fun _ m' =>
      (.ok (), { m'.note source "fault" message
          [("kind", "plc"), ("dropped", toString m.queue.clear.1.length)] with
        lastError := some message, stopRequested := false }) :=
  rfl

/-- The machine after such a fault, but for what was noted. -/
def motionFaulted (m : Machine R) (message : String) : Machine R :=
  { m with
    executor := m.executor.syncPosition m.status.position
    exchange := { m.exchange with queue := m.queue.clear.2 }
    lastError := some message
    stopRequested := false }

theorem motionFault_eq_ok {source message : String}
    (h : m.motionFault source message = (.ok (), m')) : (m.motionFaulted message).Noted m' := by
  rw [motionFault_eq] at h
  obtain ⟨_, m₁, saved, h⟩ := Outcome.andThen_eq_ok h
  have dropped : (m.withMotion (m.executor.syncPosition m.status.position)
      m.queue.clear.2).Noted m₁ :=
    (withRecord_noted _ ⟨rfl, rfl, rfl, rfl⟩).trans (save_eq_ok saved)
  obtain ⟨records, files, rfl, same⟩ := dropped
  cases h
  exact ⟨records, _, rfl, same⟩

/-- What a period can do in manual motion. -/
inductive ManualPeriod (m : Machine R) : Machine R → Prop
  | fails {m' : Machine R} (reason : String) (fault : m.status.fault? = some reason)
      (noted : Noted ({ m with pendingManual := [] }.motionFaulted reason).stopped m') :
      ManualPeriod m m'
  /-- The oldest request waits. -/
  | waits (stop : m.stopRequested = false) (asked : m.pendingManual ≠ []) : ManualPeriod m m
  | pushes {request : ManualRequest R} {later : List (ManualRequest R)} {x : Executor R}
      {q : Queue R} (stop : m.stopRequested = false) (asked : m.pendingManual = request :: later)
      (pushes : m.executor.Pushes m.queue x q) :
      ManualPeriod m ({ m with pendingManual := later }.withMotion x q)
  | rejects {request : ManualRequest R} {later : List (ManualRequest R)} {m' : Machine R}
      (message : String) (stop : m.stopRequested = false)
      (asked : m.pendingManual = request :: later)
      (noted : Noted { m with pendingManual := later, lastError := some message } m') :
      ManualPeriod m m'
  /-- Nothing more is asked for, or it was cancelled, and motion goes on. -/
  | runs (ended : m.stopRequested = true ∨ m.pendingManual = []) :
      ManualPeriod m { m with pendingManual := [] }
  | ends {m' : Machine R} (ended : m.stopRequested = true ∨ m.pendingManual = [])
      (empty : m.queue.entries = [])
      (noted : Noted { m with pendingManual := [] }.stopped m') : ManualPeriod m m'

/-- What becomes of a request. -/
theorem carryOut_period {request : ManualRequest R} {later : List (ManualRequest R)}
    (stop : m.stopRequested = false) (asked : m.pendingManual = request :: later) :
    m.ManualPeriod (m.carryOut request later) := by
  have waits : m.ManualPeriod m := .waits stop (by rw [asked]; exact List.cons_ne_nil _ _)
  unfold carryOut
  split
  · exact waits
  · split
    · next queued => exact .pushes stop asked (queueRequest_pushes queued)
    · exact waits
    · next e _ _ =>
      obtain ⟨records, files, noted, same⟩ :=
        note_noted { m with pendingManual := later } "manual" "rejected" e.message []
      rw [noted]
      exact .rejects e.message stop asked ⟨records, files, rfl, same⟩

/-- Manual motion that nothing more is asked of goes on until the queue is empty. -/
theorem manual_over (mode : m.mode = .manual) (ended : m.stopRequested = true ∨ m.pendingManual = [])
    {next : Option Mode} {m₁ : Machine R}
    (updated : (.ok (if m.queue.isEmpty then some .stop else none), { m with pendingManual := [] }) =
      ((.ok next, m₁) : Outcome R (Option Mode)))
    (after : m₁.GoesOver next m') : m.ManualPeriod m' := by
  cases updated
  split at after
  · next empty =>
    exact .ends ended (List.isEmpty_iff.mp empty) (transition_of_manual after mode)
  · obtain rfl : m' = _ := after
    exact .runs ended

theorem tick_manual (mode : m.mode = .manual) (h : m.tick = (.ok (), m')) : m.ManualPeriod m' := by
  obtain ⟨next, m₁, updated, after⟩ := tick_eq_ok h
  have update : m.update = m.updateManual := by rw [update, mode]
  rw [update, updateManual] at updated
  split at updated
  · next reason fault =>
    obtain ⟨_, failed, rfl⟩ := Outcome.as_eq_ok updated
    obtain ⟨records, files, rfl, same⟩ := motionFault_eq_ok failed
    exact .fails reason fault (.trans ⟨records, files, rfl, same⟩ (transition_of_manual after mode))
  · by_cases stop : m.stopRequested = true
    · rw [if_pos stop] at updated
      exact manual_over mode (.inl stop) updated after
    · rw [if_neg stop] at updated
      simp only at updated
      split at updated
      · next request later asked =>
        cases updated
        obtain rfl : m' = _ := after
        exact carryOut_period (eq_false_of_ne_true stop) asked
      · next nil =>
        refine manual_over mode (.inr nil) (updated ▸ ?_) after
        rw [← nil]

/-! ## Visiting a pin -/

/-- A visit leaves for stop. -/
theorem transition_of_calibration (h : m.transition .stop = (.ok (), m'))
    (mode : m.mode = .calibration) : Noted { m with visit := .none }.stopped m' := by
  obtain ⟨m₁, m₂, left, ⟨records, files, rfl, same⟩, rfl⟩ :=
    transition_eq_ok h (by rw [mode]; decide)
  rw [leave, mode] at left
  cases left
  exact ⟨records, files, rfl, same⟩

/-- What a period can do while a pin is visited. -/
inductive CalibrationPeriod (m : Machine R) : Machine R → Prop
  | fails {m' : Machine R} (reason : String) (fault : m.status.fault? = some reason)
      (noted : Noted { m.motionFaulted reason with visit := .none }.stopped m') :
      CalibrationPeriod m m'
  /-- The visit is ended, was cancelled or cannot be made. -/
  | ends {m' : Machine R} (error : Option String)
      (ended : (∀ pin, m.visit ≠ .issued pin) ∨ m.queue.entries = [])
      (noted : Noted { m with visit := .none, lastError := error }.stopped m') :
      CalibrationPeriod m m'
  /-- The queue has no room for the move, or the move has not run. -/
  | waits : CalibrationPeriod m m
  | pushes {pin : Pin} {x : Executor R} {q : Queue R} (stop : m.stopRequested = false)
      (wanted : m.visit = .wanted pin) (pushes : m.executor.Pushes m.queue x q) :
      CalibrationPeriod m ({ m with visit := .issued pin }.withMotion x q)

theorem tick_calibration (mode : m.mode = .calibration) (h : m.tick = (.ok (), m')) :
    m.CalibrationPeriod m' := by
  obtain ⟨next, m₁, updated, after⟩ := tick_eq_ok h
  have update : m.update = m.updateCalibration := by rw [update, mode]
  rw [update, updateCalibration] at updated
  have notes (kind : String) (ended : (∀ pin, m.visit ≠ .issued pin) ∨ m.queue.entries = [])
      (h : (m.notePosition kind).transition .stop = (.ok (), m')) : m.CalibrationPeriod m' := by
    have left := transition_of_calibration h mode
    exact .ends m.lastError ended (.trans ⟨_, _, rfl, ⟨rfl, rfl, rfl, rfl⟩⟩ left)
  split at updated
  · next reason fault =>
    obtain ⟨_, failed, rfl⟩ := Outcome.as_eq_ok updated
    obtain ⟨records, files, rfl, same⟩ := motionFault_eq_ok failed
    exact .fails reason fault
      (.trans ⟨records, files, rfl, same⟩ (transition_of_calibration after mode))
  · split at updated
    · next none =>
      cases updated
      exact .ends m.lastError (.inl (by simp [none])) (transition_of_calibration after mode)
    · next pin wanted =>
      split at updated
      · cases updated
        exact notes "stopped" (.inl (by simp [wanted])) after
      · next stop =>
        unfold visitPin at updated
        split at updated
        · cases updated
          obtain rfl : m' = _ := after
          exact .waits
        · split at updated
          · next pushed =>
            cases updated
            obtain rfl : m' = _ := after
            exact .pushes (eq_false_of_ne_true stop) wanted (Executor.seekPin_pushes pushed)
          · next e _ =>
            cases updated
            exact .ends (some e.message) (.inl (by simp [wanted]))
              (transition_of_calibration after mode)
    · split at updated
      · next empty =>
        cases updated
        exact notes _ (.inr (List.isEmpty_iff.mp empty)) after
      · cases updated
        obtain rfl : m' = _ := after
        exact .waits

/-! ## What stays -/

/-- The machines have the same session, with the same lines in flight and the same wire, and the same
progress in the record. -/
structure SameSession (m m' : Machine R) : Prop where
  session : m'.executor.session = m.executor.session
  inFlight : m'.executor.inFlight = m.executor.inFlight
  wire : m'.executor.wire = m.executor.wire
  progress : m.record.SameProgress m'.record

/-- The machine stays in its mode, with its session. -/
structure Stays (m m' : Machine R) : Prop extends SameSession m m' where
  mode : m'.mode = m.mode

section

omit [Scalar R]

/-- Of the executor, only the pose, the state and the calibrations that it has read change. -/
theorem SameSession.of_pose
    (executor : m'.executor = { m.executor with
      pose := m'.executor.pose, state := m'.executor.state, library := m'.executor.library })
    (progress : m.record.SameProgress m'.record) : m.SameSession m' :=
  ⟨by rw [executor], by rw [executor], by rw [executor], progress⟩

theorem SameSession.refl (m : Machine R) : m.SameSession m := .of_pose rfl (.refl _)

theorem SameSession.trans (h : m.SameSession m') (h' : m'.SameSession m'') :
    m.SameSession m'' where
  session := h'.session.trans h.session
  inFlight := h'.inFlight.trans h.inFlight
  wire := h'.wire.trans h.wire
  progress := h.progress.trans h'.progress

theorem Noted.sameSession (h : m.Noted m') : m.SameSession m' := by
  obtain ⟨records, files, rfl, same⟩ := h
  exact .of_pose rfl same

theorem Stays.of_pose (mode : m'.mode = m.mode)
    (executor : m'.executor = { m.executor with
      pose := m'.executor.pose, state := m'.executor.state, library := m'.executor.library })
    (record : m'.record = m.record) : m.Stays m' :=
  ⟨.of_pose executor (record ▸ .refl _), mode⟩

theorem updateStop_stays (m : Machine R) : m.Stays m.updateStop.2 := by
  unfold updateStop
  simp only
  split
  · exact .of_pose rfl rfl rfl
  · split
    · exact .of_pose rfl rfl rfl
    · split
      · exact .of_pose rfl rfl rfl
      · split <;> exact .of_pose rfl rfl rfl

theorem droppingMotion_same (m : Machine R) (message : String) :
    m.SameSession (m.droppingMotion message) := by
  refine .of_pose ?_ ⟨rfl, rfl, rfl, rfl⟩
  change m.executor.syncPosition m.status.position = { m.executor with
    pose := (m.executor.syncPosition m.status.position).pose
    state := (m.executor.syncPosition m.status.position).state
    library := (m.executor.syncPosition m.status.position).library }
  unfold Executor.syncPosition
  split <;> rfl

end

/-- A fault outside winding stays, also when it cannot be saved. -/
theorem motionFault_stays (m : Machine R) (source message : String) :
    m.Stays (m.motionFault source message).2 := by
  have saved := (m.droppingMotion message).save_noted
  rw [motionFault_eq]
  rcases hs : (m.droppingMotion message).save with ⟨_ | _, m'⟩
  all_goals
    rw [hs] at saved
    have same := (m.droppingMotion_same message).trans saved.sameSession
    obtain ⟨records, files, rfl, -⟩ := saved
    exact ⟨⟨same.session, same.inFlight, same.wire, same.progress⟩, rfl⟩

theorem carryOut_stays (m : Machine R) (request : ManualRequest R)
    (later : List (ManualRequest R)) : m.Stays (m.carryOut request later) := by
  unfold carryOut
  split
  · exact .of_pose rfl rfl rfl
  · split
    · next pushed =>
      obtain ⟨pose, p, -, rfl⟩ := queueRequest_pushes pushed
      exact .of_pose rfl rfl rfl
    · exact .of_pose rfl rfl rfl
    · exact .of_pose rfl rfl rfl

theorem updateManual_stays (m : Machine R) : m.Stays m.updateManual.2 := by
  unfold updateManual
  split
  · rw [Outcome.as_snd]
    obtain ⟨same, mode⟩ := motionFault_stays { m with pendingManual := [] } "manual" _
    exact ⟨⟨same.session, same.inFlight, same.wire, same.progress⟩, mode⟩
  · have dropped : m.Stays (if m.stopRequested then { m with pendingManual := [] } else m) := by
      split <;> exact .of_pose rfl rfl rfl
    simp only
    generalize (if m.stopRequested then { m with pendingManual := [] } else m) = m₁ at dropped
    obtain ⟨same, mode⟩ := dropped
    split
    · next request later _ =>
      obtain ⟨same', mode'⟩ := m₁.carryOut_stays request later
      exact ⟨same.trans same', mode'.trans mode⟩
    · exact ⟨same, mode⟩

theorem updateCalibration_stays (m : Machine R) : m.Stays m.updateCalibration.2 := by
  unfold updateCalibration
  split
  · rw [Outcome.as_snd]
    exact m.motionFault_stays _ _
  · split
    · exact .of_pose rfl rfl rfl
    · split
      · exact .of_pose rfl rfl rfl
      · unfold visitPin
        split
        · exact .of_pose rfl rfl rfl
        · split
          · next pushed =>
            obtain ⟨pose, p, -, rfl⟩ := Executor.seekPin_pushes pushed
            exact .of_pose rfl rfl rfl
          · exact .of_pose rfl rfl rfl
    · split <;> exact .of_pose rfl rfl rfl

end Machine

end Winding

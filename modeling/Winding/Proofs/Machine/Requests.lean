import Winding.Proofs.Machine.Handling
import Winding.Proofs.Machine.WindPeriods

/-!
# What becomes of requests

Requests for motion wait until a mode carries them out. What a period does to them is the same in
all modes up to a few facts (`Machine.Tends`): requests only leave, a stop drops manual motion in
manual mode, and nothing is begun after a shutdown was asked for.
-/

namespace Winding

variable {R : Type}

/-- The move to the pin was not queued yet. -/
def PinVisit.isWanted : PinVisit → Bool
  | .wanted _ => true
  | .none | .issued _ => false

namespace Machine

variable {m m' : Machine R}

/-- Requests wait where they can: a pin is visited only in its mode, and no visit waits while there
is motion outside winding. -/
structure Attentive (m : Machine R) : Prop where
  visit : m.mode ≠ .calibration → m.visit = .none
  calibration : m.mode = .manual ∨ m.mode = .calibration → m.pendingCalibration = none

/-- What a period can do to the requests that wait. -/
structure Tends (m m' : Machine R) : Prop where
  attentive : m'.Attentive
  manual : m'.pendingManual.length ≤ m.pendingManual.length
  calibration : m'.pendingCalibration.isSome → m.pendingCalibration.isSome
  visit : m'.visit.isWanted →
    m.visit.isWanted ∧ m'.stopRequested = m.stopRequested ∨
      m.visit = .none ∧ m.pendingCalibration.isSome ∧ m.shutdownRequested = false
  /-- A stop drops manual motion. -/
  stop : m.mode = .manual → m.stopRequested → m'.pendingManual = []
  /-- No motion is queued after a stop. -/
  queue : m.mode = .manual ∨ m.mode = .calibration → m.queue.length < m'.queue.length →
    m.stopRequested = false
  /-- Manual motion does not begin after a shutdown was asked for. -/
  closed : m.mode ≠ .manual → m.shutdownRequested → m'.mode ≠ .manual
  shutdown : m'.shutdownRequested = m.shutdownRequested

/-- What is remembered of a visit while it waits to begin is there exactly while it does. -/
theorem Tends.isSome_calibration {α : Type} {waits : Option α} (h : m.Tends m')
    (there : waits.isSome = m.pendingCalibration.isSome) :
    (if m'.pendingCalibration.isSome then waits else none).isSome =
      m'.pendingCalibration.isSome := by
  split
  · next some => rw [there, h.calibration some, some]
  · next none => exact (eq_false_of_ne_true none).symm

/-- What is remembered of the visit that has begun is there exactly until its move is queued. -/
theorem Tends.isSome_visit {α : Type} {begun waits : Option α} (h : m.Tends m')
    (there : begun.isSome = m.visit.isWanted)
    (there' : waits.isSome = m.pendingCalibration.isSome) :
    (if m'.visit.isWanted then begun.or waits else none).isSome = m'.visit.isWanted := by
  split
  · next wanted =>
    rw [wanted, Option.isSome_or, there, there']
    rcases h.visit wanted with ⟨before, -⟩ | ⟨-, some, -⟩
    · rw [before, Bool.true_or]
    · rw [some, Bool.or_true]
  · next idle => exact (eq_false_of_ne_true idle).symm

/-- Away from the modes of motion, requests wait as before, or are dropped. -/
theorem Tends.of_fewer (attentive : m.Attentive)
    (manual : m'.pendingManual.length ≤ m.pendingManual.length)
    (calibration : m'.pendingCalibration.isSome → m.pendingCalibration.isSome)
    (visit : m'.visit = m.visit) (shutdown : m'.shutdownRequested = m.shutdownRequested)
    (mode : m.mode = .stop ∨ m.mode = .wind) (next : m'.mode = .stop ∨ m'.mode = .wind) :
    m.Tends m' := by
  have absent : m.visit = .none := attentive.visit (by rcases mode with h | h <;> rw [h] <;> decide)
  have still : m'.mode ≠ .manual ∧ m'.mode ≠ .calibration := by
    rcases next with h | h <;> rw [h] <;> decide
  refine ⟨⟨fun _ => visit.trans absent, ?_⟩, manual, calibration, ?_, ?_, ?_, fun _ _ => still.1,
    shutdown⟩
  · rintro (h | h)
    · exact absurd h still.1
    · exact absurd h still.2
  · rw [visit, absent]
    exact nofun
  · intro h
    rcases mode with h' | h' <;> cases h.symm.trans h'
  · rintro (h | h) <;> rcases mode with h' | h' <;> cases h.symm.trans h'

/-- Manual motion: the oldest request may leave, and a stop drops all of them. -/
theorem Tends.of_manual (attentive : m.Attentive) (mode : m.mode = .manual)
    (manual : m'.pendingManual.length ≤ m.pendingManual.length)
    (stop : m.stopRequested → m'.pendingManual = [])
    (queue : m.queue.length < m'.queue.length → m.stopRequested = false)
    (calibration : m'.pendingCalibration = m.pendingCalibration) (visit : m'.visit = m.visit)
    (shutdown : m'.shutdownRequested = m.shutdownRequested) : m.Tends m' := by
  have absent : m.visit = .none := attentive.visit (by rw [mode]; decide)
  have none : m.pendingCalibration = none := attentive.calibration (.inl mode)
  refine ⟨⟨fun _ => visit.trans absent, fun _ => calibration.trans none⟩, manual, ?_, ?_,
    fun _ => stop, fun _ => queue, fun h => absurd mode h, shutdown⟩
  · rw [calibration]
    exact id
  · rw [visit, absent]
    exact nofun

variable [Scalar R]

/-! ## Periods -/

theorem tick_stop_tends (attentive : m.Attentive) (mode : m.mode = .stop)
    (ticked : m.tick = (.ok (), m')) : m.Tends m' := by
  have absent : m.visit = .none := attentive.visit (by rw [mode]; decide)
  have still (h : m.mode = .manual ∨ m.mode = .calibration) : False := by
    rw [mode] at h
    rcases h with h | h <;> cases h
  rcases Machine.tick_stop mode ticked with
    - | ⟨-, -, noted⟩ | ⟨pin, shutdown, -, asked, noted⟩ | ⟨shutdown, -, none, asked, noted⟩ | -
  · exact .of_fewer attentive (Nat.zero_le _) nofun rfl rfl (.inl mode) (.inl mode)
  · obtain ⟨records, files, rfl, -⟩ := noted
    unfold enterWind
    split
    · exact .of_fewer attentive (Nat.le_refl _) id rfl rfl (.inl mode) (.inr rfl)
    · exact .of_fewer attentive (Nat.le_refl _) id rfl rfl (.inl mode) (.inr rfl)
  · obtain ⟨records, files, rfl, -⟩ := noted
    exact ⟨⟨fun h => absurd rfl h, fun _ => rfl⟩, Nat.le_refl _, nofun,
      fun _ => .inr ⟨absent, by rw [asked]; rfl, shutdown⟩, fun h => (still (.inl h)).elim,
      fun h => (still h).elim, nofun, rfl⟩
  · obtain ⟨records, files, rfl, -⟩ := noted
    refine ⟨⟨fun _ => absent, fun _ => none⟩, Nat.le_refl _, id, ?_, fun h => (still (.inl h)).elim,
      fun h => (still h).elim, fun _ h => ?_, rfl⟩
    · rw [absent]
      exact nofun
    · cases shutdown.symm.trans h
  · exact .of_fewer attentive (Nat.le_refl _) id rfl rfl (.inl mode) (.inl mode)

theorem tick_wind_tends (attentive : m.Attentive) (mode : m.mode = .wind)
    (state : m.executor.state ≠ .idle) (ticked : m.tick = (.ok (), m')) : m.Tends m' := by
  rcases Machine.tick_wind mode ticked with
    ⟨-, records, files, rfl, -⟩ | ⟨error, -, records, files, rfl, -⟩ |
    ⟨-, -, -, records, files, -, rfl, -⟩ | idle
  · exact .of_fewer attentive (Nat.le_refl _) id rfl rfl (.inr mode) (.inr mode)
  · exact .of_fewer attentive (Nat.le_refl _) id rfl rfl (.inr mode) (.inl rfl)
  · exact .of_fewer attentive (Nat.le_refl _) id rfl rfl (.inr mode) (.inl rfl)
  · exact absurd idle state

theorem tick_manual_tends (attentive : m.Attentive) (mode : m.mode = .manual)
    (ticked : m.tick = (.ok (), m')) : m.Tends m' := by
  rcases Machine.tick_manual mode ticked with
    ⟨reason, -, noted⟩ | ⟨stop, -⟩ | ⟨stop, asked, pushes⟩ | ⟨message, stop, asked, noted⟩ | - |
    ⟨-, -, noted⟩
  · obtain ⟨records, files, rfl, -⟩ := noted
    exact .of_manual attentive mode (Nat.zero_le _) (fun _ => rfl) nofun rfl rfl rfl
  · refine .of_manual attentive mode (Nat.le_refl _) (fun h => ?_) (fun _ => stop) rfl rfl rfl
    cases stop.symm.trans h
  · refine .of_manual attentive mode ?_ (fun h => ?_) (fun _ => stop) rfl rfl rfl
    · rw [asked]
      exact Nat.le_succ _
    · cases stop.symm.trans h
  · obtain ⟨records, files, rfl, -⟩ := noted
    refine .of_manual attentive mode ?_ (fun h => ?_) (fun _ => stop) rfl rfl rfl
    · rw [asked]
      exact Nat.le_succ _
    · cases stop.symm.trans h
  · exact .of_manual attentive mode (Nat.zero_le _) (fun _ => rfl)
      (fun h => absurd h (Nat.lt_irrefl _)) rfl rfl rfl
  · obtain ⟨records, files, rfl, -⟩ := noted
    exact .of_manual attentive mode (Nat.zero_le _) (fun _ => rfl)
      (fun h => absurd h (Nat.lt_irrefl _)) rfl rfl rfl

/-- A visit is over, or it goes on as the machine is. -/
theorem tick_calibration_tends (attentive : m.Attentive) (mode : m.mode = .calibration)
    (ticked : m.tick = (.ok (), m')) : m.Tends m' := by
  have none : m.pendingCalibration = none := attentive.calibration (.inr mode)
  have manual (h : m.mode = .manual) : False := by cases h.symm.trans mode
  rcases Machine.tick_calibration mode ticked with
    ⟨reason, -, noted⟩ | ⟨error, -, noted⟩ | - | ⟨stop, -, pushes⟩
  · obtain ⟨records, files, rfl, -⟩ := noted
    exact ⟨⟨fun _ => rfl, fun _ => none⟩, Nat.le_refl _, id, nofun, fun h => (manual h).elim,
      fun _ => nofun, nofun, rfl⟩
  · obtain ⟨records, files, rfl, -⟩ := noted
    exact ⟨⟨fun _ => rfl, fun _ => none⟩, Nat.le_refl _, id, nofun, fun h => (manual h).elim,
      fun _ h => absurd h (Nat.lt_irrefl _), nofun, rfl⟩
  · exact ⟨attentive, Nat.le_refl _, id, fun h => .inl ⟨h, rfl⟩, fun h => (manual h).elim,
      fun _ h => absurd h (Nat.lt_irrefl _), fun h _ => h, rfl⟩
  · exact ⟨⟨fun h => absurd mode h, fun _ => none⟩, Nat.le_refl _, id, nofun,
      fun h => (manual h).elim, fun _ _ => stop, fun h _ => h, rfl⟩

/-- A period in any mode. -/
theorem tick_tends (attentive : m.Attentive) (wind : m.mode = .wind → m.executor.state ≠ .idle)
    (ticked : m.tick = (.ok (), m')) : m.Tends m' := by
  rcases mode : m.mode with _ | _ | _ | _
  · exact tick_stop_tends attentive mode ticked
  · exact tick_manual_tends attentive mode ticked
  · exact tick_wind_tends attentive mode (wind mode) ticked
  · exact tick_calibration_tends attentive mode ticked

/-! ## Requests that are queued -/

/-- A stopped machine goes over to a mode of motion. -/
structure TurnsTo (m m' : Machine R) (mode : Mode) : Prop where
  mode : m'.mode = mode
  stop : m'.stopRequested = false
  executor : m'.executor = m.executor
  exchange : m'.exchange = m.exchange
  manual : m'.pendingManual = m.pendingManual

/-- The visit that was asked for begins before manual motion. -/
theorem tick_stop_turns (mode : m.mode = .stop) (shutdown : m.shutdownRequested = false)
    (start : m.startRequested = false) (ticked : m.tick = (.ok (), m')) :
    (∀ pin, m.pendingCalibration = some pin →
      m.TurnsTo m' .calibration ∧ m'.visit = .wanted pin) ∧
    (m.pendingCalibration = none → m.pendingManual ≠ [] → m.TurnsTo m' .manual) := by
  rcases Machine.tick_stop mode ticked with
    closed | ⟨-, started, -⟩ | ⟨pin, -, -, asked, noted⟩ | ⟨-, -, unasked, -, noted⟩ |
    ⟨-, unasked, nil⟩
  · cases shutdown.symm.trans closed
  · cases start.symm.trans started
  · obtain ⟨records, files, rfl, -⟩ := noted
    refine ⟨fun pin' asked' => ?_, fun unasked => ?_⟩
    · obtain rfl := Option.some.inj (asked.symm.trans asked')
      exact ⟨⟨rfl, rfl, rfl, rfl, rfl⟩, rfl⟩
    · cases asked.symm.trans unasked
  · obtain ⟨records, files, rfl, -⟩ := noted
    refine ⟨fun pin asked => ?_, fun _ _ => ⟨rfl, rfl, rfl, rfl, rfl⟩⟩
    cases unasked.symm.trans asked
  · refine ⟨fun pin asked => ?_, fun _ some => absurd nil some⟩
    cases unasked.symm.trans asked

/-- One motion was queued, for which there was room. -/
theorem pushes_length {x x' : Executor R} {q q' : Queue R} (h : x.Pushes q x' q') :
    q.free ≠ 0 ∧ q'.length = q.length + 1 := by
  obtain ⟨pose, p, ⟨pushed, -⟩, -⟩ := h
  refine ⟨fun full => ?_, ?_⟩
  · rw [Queue.push, Queue.pushAll, full, List.length_singleton, if_pos Nat.one_pos] at pushed
    cases pushed
  · rw [Queue.push_eq_ok pushed, Queue.length, List.length_append]
    rfl

/-- The oldest manual motion is queued when it can be. -/
theorem tick_queues_manual (mode : m.mode = .manual) (fault : m.status.fault? = none)
    (stop : m.stopRequested = false) {request : ManualRequest R} {later : List (ManualRequest R)}
    (asked : m.pendingManual = request :: later) {p : Primitive R} {x : Executor R} {q : Queue R}
    (queued : m.queueRequest request = .ok (p, x, q)) :
    m.tick = (.ok (), { m with pendingManual := later }.withMotion x q) := by
  have room := (pushes_length (queueRequest_pushes queued)).1
  have carried : m.carryOut request later = { m with pendingManual := later }.withMotion x q := by
    rw [carryOut, if_neg room, queued]
  have update : m.update = (.ok none, m.carryOut request later) := by
    rw [Machine.update, mode, updateManual, fault]
    simp only [stop, Bool.false_eq_true, if_false, asked]
  rw [tick, update, carried]
  rfl

/-- The move to the pin is queued when it can be. -/
theorem tick_queues_visit (mode : m.mode = .calibration) (fault : m.status.fault? = none)
    (stop : m.stopRequested = false) {pin : Pin} (wanted : m.visit = .wanted pin)
    {p : Primitive R} {x : Executor R} {q : Queue R}
    (queued : m.executor.seekPin m.queue pin = .ok (p, x, q)) :
    m.tick = (.ok (), { m with visit := .issued pin }.withMotion x q) := by
  have room := (pushes_length (Executor.seekPin_pushes queued)).1
  have visited : m.visitPin pin =
      (.ok none, { m with visit := .issued pin }.withMotion x q) := by
    rw [visitPin, if_neg room, queued]
  have update : m.update = m.visitPin pin := by
    rw [Machine.update, mode, updateCalibration, fault]
    simp only [wanted, stop, Bool.false_eq_true, if_false]
  rw [tick, update, visited]
  rfl

namespace TurnsTo

variable {m'' : Machine R} {mode : Mode}

omit [Scalar R] in
theorem queue (turns : m.TurnsTo m' mode) : m'.queue = m.queue :=
  congrArg Exchange.queue turns.exchange

omit [Scalar R] in
theorem fault (turns : m.TurnsTo m' mode) (clear : m.status.fault? = none) :
    m'.status.fault? = none :=
  (congrArg (fun x : Exchange R => x.status.fault?) turns.exchange).trans clear

/-- After the turn to manual motion the oldest request is queued. -/
theorem queues_manual (turns : m.TurnsTo m' .manual) (clear : m.status.fault? = none)
    {request : ManualRequest R} {later : List (ManualRequest R)}
    (asked : m.pendingManual = request :: later) {r : Primitive R × Executor R × Queue R}
    (possible : m.queueRequest request = .ok r) (ticked : m'.tick = (.ok (), m'')) :
    m'.queue.length < m''.queue.length := by
  have queued : m'.queueRequest request = .ok r := by
    cases request <;> simpa only [queueRequest, turns.executor, turns.queue] using possible
  rw [tick_queues_manual turns.mode (turns.fault clear) turns.stop (turns.manual.trans asked)
    queued] at ticked
  cases ticked
  exact (pushes_length (queueRequest_pushes queued)).2 ▸ Nat.lt_succ_self _

/-- After the turn to a visit its move is queued. -/
theorem queues_visit (turns : m.TurnsTo m' .calibration) (clear : m.status.fault? = none)
    {pin : Pin} (wanted : m'.visit = .wanted pin) {r : Primitive R × Executor R × Queue R}
    (possible : m.executor.seekPin m.queue pin = .ok r) (ticked : m'.tick = (.ok (), m'')) :
    m'.queue.length < m''.queue.length := by
  have queued : m'.executor.seekPin m'.queue pin = .ok r := by
    rwa [turns.executor, turns.queue]
  rw [tick_queues_visit turns.mode (turns.fault clear) turns.stop wanted queued] at ticked
  cases ticked
  exact (pushes_length (Executor.seekPin_pushes queued)).2 ▸ Nat.lt_succ_self _

end TurnsTo

/-- Requests wait on in the second machine, and it is not in manual motion; once it is stopped, it has
forgotten that it was asked to stop. -/
structure WaitsOn (m m' : Machine R) : Prop where
  manual : m'.pendingManual = m.pendingManual
  calibration : m'.pendingCalibration = m.pendingCalibration
  mode : m'.mode ≠ .manual
  stop : m'.mode = .stop → m'.stopRequested = false

/-- Winding, and visits to pins, leave the requests that wait. -/
theorem tick_waitsOn (mode : m.mode = .wind ∧ m.executor.state ≠ .idle ∨ m.mode = .calibration)
    (ticked : m.tick = (.ok (), m')) : m.WaitsOn m' := by
  rcases mode with ⟨mode, state⟩ | mode
  · rcases Machine.tick_wind mode ticked with
      ⟨-, records, files, rfl, -⟩ | ⟨error, -, records, files, rfl, -⟩ |
      ⟨-, -, -, records, files, -, rfl, -⟩ | idle
    · exact ⟨rfl, rfl, (fun h => nomatch mode.symm.trans h), fun h => nomatch mode.symm.trans h⟩
    · exact ⟨rfl, rfl, nofun, fun _ => rfl⟩
    · exact ⟨rfl, rfl, nofun, fun _ => rfl⟩
    · exact absurd idle state
  · rcases Machine.tick_calibration mode ticked with
      ⟨reason, -, noted⟩ | ⟨error, -, noted⟩ | - | ⟨stop, -, pushes⟩
    · obtain ⟨records, files, rfl, -⟩ := noted
      exact ⟨rfl, rfl, nofun, fun _ => rfl⟩
    · obtain ⟨records, files, rfl, -⟩ := noted
      exact ⟨rfl, rfl, nofun, fun _ => rfl⟩
    · exact ⟨rfl, rfl, (fun h => nomatch mode.symm.trans h), fun h => nomatch mode.symm.trans h⟩
    · exact ⟨rfl, rfl, (fun h => nomatch mode.symm.trans h), fun h => nomatch mode.symm.trans h⟩

/-! ## Commands -/

/-- A recipe is no request for motion. -/
theorem accepts_of_loads {c : Operator.Command R} {s : Session R} (loaded : m.loads? c = some s) :
    m.accepts c = false := by
  cases c with
  | load recipe line => rfl
  | start | stop | jog | head | latch | status | calibrate | shutdown => cases loaded

/-- Commands leave the requests where they can wait. -/
theorem Attentive.handle {c : Operator.Command R} (h : m.Attentive) (handled : m.Handled c m') :
    m'.Attentive := by
  have stopped (mode : m.mode = .stop) : m.visit = .none := h.visit (by rw [mode]; decide)
  rcases handled with
    - | - | - | - | ⟨pin, -, mode, -, -⟩ | - | ⟨library, -, -, noted⟩ |
    ⟨library, path, mode, -, -, -, noted⟩
  · exact h
  · exact ⟨h.visit, h.calibration⟩
  · exact ⟨h.visit, h.calibration⟩
  · exact ⟨h.visit, h.calibration⟩
  · refine ⟨h.visit, fun moving => ?_⟩
    rcases moving with moving | moving <;> cases mode.symm.trans moving
  · exact ⟨h.visit, h.calibration⟩
  · obtain ⟨records, files, rfl, -⟩ := noted
    exact ⟨h.visit, h.calibration⟩
  · obtain ⟨records, files, rfl, -⟩ := noted
    exact ⟨h.visit, h.calibration⟩

end Machine

end Winding

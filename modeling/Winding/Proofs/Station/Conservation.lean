import Winding.Proofs.Execution.Ledger
import Winding.Proofs.Machine.Advance
import Winding.Proofs.Station.Runs

/-!
# No line is lost, repeated or reordered

An observer of a station keeps the ledger of the session that is loaded (`Station.accounts`). In
every run the ledger agrees with the machine (`Station.Run.kept`). Each time winding stops, what was
retired is therefore the motion of the lines up to the cursor, each once and in order, and a recipe
is only finished after its last line (`Station.Run.stop_conserves`).
-/

namespace Winding

variable {σ R : Type} [Scalar R]

/-- What is known about the session that is loaded. -/
structure Account (R : Type) where
  ledger : Ledger R
  /-- The wound length of the session's layer when the session was loaded. -/
  base : R

namespace Account

/-- The account of a session that was just loaded. -/
def start (m : Machine R) (s : Session R) : Account R := ⟨.empty, m.record.length s.layer⟩

/-- The account agrees with the machine. -/
def Kept (a : Account R) (m : Machine R) : Prop :=
  ∀ s, m.executor.session = some s → a.ledger.Kept m.course s

variable {a : Account R} {m m' : Machine R}

omit [Scalar R] in
/-- Manual motion, and what is filed, is not in the account. -/
theorem Kept.congr (h : a.Kept m) (session : m'.executor.session = m.executor.session)
    (inFlight : m'.executor.inFlight = m.executor.inFlight)
    (state : m'.executor.state = m.executor.state)
    (motion : Queue.motion m'.queue.entries = Queue.motion m.queue.entries) : a.Kept m' := by
  intro s session'
  have kept := h s (session ▸ session')
  exact kept.congr (kept.coherent.congr session' inFlight motion (state ▸ kept.coherent.done))
    (inFlight ▸ List.suffix_rfl) motion

/-- The account of a session that begins with nothing queued agrees with the machine. -/
theorem kept_start {x : Executor R} {sess : Session R} (base : R)
    (executor : m.executor = x.begin sess) (start : sess.start = sess.cursor)
    (cursor_le : sess.cursor ≤ sess.lines.length) (queue : m.queue.entries = []) :
    Kept ⟨.empty, base⟩ m := by
  intro s session
  have motion : Queue.motion m.queue.entries = [] := by rw [queue, Queue.motion_nil]
  rw [executor] at session
  obtain rfl : sess = s := Option.some.inj session
  have coherent : m.course.Coherent sess := by
    rw [Machine.course, executor]
    exact .of_begin x start cursor_le motion
  exact .empty coherent start (by rw [Machine.course, executor]; rfl) motion

/-- Arming a session is a quiet move. -/
theorem Kept.arm (h : a.Kept m) {x : Executor R} (armed : m.executor.arm = .ok x)
    (course : m'.course = ⟨x, m.queue⟩) : a.Kept m' := by
  have after : m'.course = m.course.after .arm := by
    rw [course, Course.after, Machine.course, armed]
    rfl
  intro s session
  change m'.course.executor.session = some s at session
  rw [after] at session ⊢
  exact (h s (m.course.arm_quiet.session.symm.trans session)).quiet rfl

/-- A command keeps the account, or begins another. -/
theorem Kept.handle {c : Operator.Command R} (h : a.Kept m) (orderly : m.Orderly)
    (handled : m.Handled c m') : (((m.loads? c).map (start m)).getD a).Kept m' := by
  rcases handled with
    none | - | ⟨-, -, -, armed⟩ | ⟨request, none, -, -, -, -⟩ | ⟨pin, -, -, -, -⟩ | - |
    ⟨library, none, -, noted⟩ | ⟨library, path, mode, loaded, begun, cursor, noted⟩
  · rw [none]
    exact h
  · exact h
  · exact h.arm armed rfl
  · rw [none]
    exact h
  · exact h
  · exact h
  · rw [none]
    obtain ⟨records, files, rfl, -⟩ := noted
    exact h.congr rfl rfl rfl rfl
  · rw [loaded]
    obtain ⟨records, files, rfl, -⟩ := noted
    exact kept_start _ rfl begun cursor (orderly.stop mode)

theorem Kept.tick_stop (h : a.Kept m) (mode : m.mode = .stop) (ticked : m.tick = (.ok (), m')) :
    a.Kept m' := by
  rcases Machine.tick_stop mode ticked with
    - | ⟨-, -, noted⟩ | ⟨pin, -, -, -, noted⟩ | ⟨-, -, -, -, noted⟩ | -
  · exact h
  · obtain ⟨records, files, rfl, -⟩ := noted
    unfold Machine.enterWind
    split <;> exact h
  · obtain ⟨records, files, rfl, -⟩ := noted
    exact h
  · obtain ⟨records, files, rfl, -⟩ := noted
    exact h
  · exact h

omit [Scalar R] in
/-- A fault outside winding drops only manual motion. -/
theorem Kept.motionFaulted (h : a.Kept m) (motion : Queue.motion m.queue.entries = [])
    (message : String) : a.Kept (m.motionFaulted message) := by
  obtain ⟨session, inFlight, state⟩ := m.executor.syncPosition_fields m.status.position
  exact h.congr session inFlight state motion.symm

theorem Kept.pushes (h : a.Kept m) {x : Executor R} {q : Queue R}
    (pushes : m.executor.Pushes m.queue x q) : a.Kept (m.withMotion x q) := by
  have motion := pushes.motion
  obtain ⟨pose, p, -, rfl⟩ := pushes
  exact h.congr rfl rfl rfl motion

theorem Kept.tick_manual (h : a.Kept m) (orderly : m.Orderly) (mode : m.mode = .manual)
    (ticked : m.tick = (.ok (), m')) : a.Kept m' := by
  have motion : Queue.motion m.queue.entries = [] := orderly.motion (by rw [mode]; decide)
  rcases Machine.tick_manual mode ticked with
    ⟨reason, -, noted⟩ | ⟨-, -⟩ | ⟨-, -, pushes⟩ | ⟨message, -, -, noted⟩ | - | ⟨-, -, noted⟩
  · obtain ⟨records, files, rfl, -⟩ := noted
    exact h.motionFaulted motion reason
  · exact h
  · exact h.pushes pushes
  · obtain ⟨records, files, rfl, -⟩ := noted
    exact h
  · exact h
  · obtain ⟨records, files, rfl, -⟩ := noted
    exact h

theorem Kept.tick_calibration (h : a.Kept m) (orderly : m.Orderly) (mode : m.mode = .calibration)
    (ticked : m.tick = (.ok (), m')) : a.Kept m' := by
  have motion : Queue.motion m.queue.entries = [] := orderly.motion (by rw [mode]; decide)
  rcases Machine.tick_calibration mode ticked with
    ⟨reason, -, noted⟩ | ⟨error, -, noted⟩ | - | ⟨-, -, pushes⟩
  · obtain ⟨records, files, rfl, -⟩ := noted
    exact h.motionFaulted motion reason
  · obtain ⟨records, files, rfl, -⟩ := noted
    exact h
  · exact h
  · exact h.pushes pushes

/-- What is written down in a period of winding. -/
def wound (a : Account R) (m : Machine R) : Account R :=
  { a with ledger := a.ledger.followAll m.course m.windMoves }

/-- The account of a period of winding agrees with the course at its end. -/
theorem Kept.windCourse (h : a.Kept m) {s : Session R} (session : m.executor.session = some s) :
    ∃ i, (a.wound m).ledger.Kept m.windCourse { s with cursor := i } :=
  (h s session).run m.windMoves

/-- At the end of a recipe all of its lines have run. -/
theorem Kept.ends (h : a.Kept m) {s : Session R} (session : m.executor.session = some s)
    (ends : m.Ends m.windCourse) :
    s.cursor = s.lines.length ∧ (a.wound m).ledger.Conserves s.start s.lines.length := by
  obtain ⟨done, empty, same⟩ := ends
  obtain ⟨i, kept⟩ := h.windCourse session
  have kept := kept.of_session_eq (same.trans session)
  have cursor := kept.coherent.done done
  exact ⟨cursor, cursor ▸ kept.conserves (by rw [empty, Queue.motion_nil])⟩

theorem Kept.tick_wind (h : a.Kept m) (orderly : m.Orderly) (mode : m.mode = .wind)
    (ticked : m.tick = (.ok (), m')) : (a.wound m).Kept m' := by
  obtain ⟨active, state⟩ := orderly.wind mode
  obtain ⟨s, session⟩ := Option.isSome_iff_exists.mp active
  obtain ⟨i, kept⟩ := h.windCourse session
  have kept' : (a.wound m).Kept (m.withCourse m.windCourse) := by
    intro s' session'
    obtain rfl := Option.some.inj (kept.coherent.session.symm.trans session')
    exact kept
  rcases Machine.tick_wind mode ticked with
    ⟨-, records, files, rfl, -⟩ | ⟨error, -, records, files, rfl, -⟩ |
    ⟨-, -, -, records, files, -, rfl, -⟩ | idle
  · exact kept'
  · exact kept'
  · exact nofun
  · exact absurd idle state

end Account

namespace Station

variable [Adapter σ]

/-- The observer who keeps the account of the session that is loaded. -/
def accounts : Observer σ R (Account R) where
  initial s :=
    match s.machine.executor.session with
    | some sess => .start s.machine sess
    | none => ⟨.empty, Scalar.zero⟩
  follow s e a :=
    match e with
    | .command c => ((s.machine.loads? c).map (Account.start s.machine)).getD a
    | .dispatch =>
      { a with ledger := a.ledger.retire (s.machine.queue.taken s.dispatch.machine.queue) }
    | .tick => if s.machine.mode = .wind then a.wound s.machine else a
    | .world _ _ _ _ => a

variable {α : Type} {s₀ s s' : Station σ R} {a : Account R} {e : Event σ R}

/-- An event keeps the account. -/
theorem perform_kept (kept : a.Kept s.machine) (orderly : s.machine.Orderly)
    (step : s.perform e = (.ok (), s')) : (accounts.follow s e a).Kept s'.machine := by
  cases e with
  | command c => exact kept.handle orderly (command_eq_ok step)
  | dispatch =>
    cases step
    exact fun sess session => (kept sess session).retires s.dispatch_retires
  | tick =>
    have ticked := tick_eq_ok step
    simp only [accounts]
    rcases mode : s.machine.mode with _ | _ | _ | _
    · exact kept.tick_stop mode ticked
    · exact kept.tick_manual orderly mode ticked
    · exact kept.tick_wind orderly mode ticked
    · exact kept.tick_calibration orderly mode ticked
  | world plc files clock now =>
    cases step
    exact kept

/-- The account is kept in every run. -/
theorem Run.kept (begins : s₀.Begins) (run : Run accounts s₀ s a) : a.Kept s.machine := by
  induction run with
  | start =>
    have atStart := begins.atStart
    simp only [accounts]
    rcases atStart.session with none | ⟨x, sess, executor, start, cursor, -, -⟩
    · intro s session
      rw [none] at session
      cases session
    · have session : s₀.machine.executor.session = some sess := by rw [executor]; rfl
      rw [session]
      exact Account.kept_start _ executor start cursor atStart.queue
  | next run step ih => exact perform_kept ih (run.orderly begins) step

/-! ## Stops -/

/-- Winding stops only in a period. -/
theorem eq_tick_of_stop (wind : s.machine.mode = .wind) (stop : s'.machine.mode = .stop)
    (step : s.perform e = (.ok (), s')) : e = .tick := by
  have ne : s'.machine.mode ≠ s.machine.mode := by rw [wind, stop]; decide
  cases e with
  | tick => rfl
  | command c => exact absurd (Machine.handled_mode (command_eq_ok step)).1 ne
  | dispatch =>
    cases step
    exact absurd rfl ne
  | world =>
    cases step
    exact absurd rfl ne

/-- A frame goes to its next stage, or its session is forgotten, only in a period of winding at
whose end the last line was queued and nothing is queued any more. -/
theorem ends_of_not_keeps {r : Except (MachineError R) Unit} (step : s.perform e = (r, s'))
    (left : ¬s.machine.Keeps s'.machine) :
    e = .tick ∧ s.machine.mode = .wind ∧ s.machine.Ends s.machine.windCourse := by
  cases e with
  | command c =>
    cases step
    exact absurd (s.machine.handle_keeps c) left
  | tick =>
    cases step
    exact ⟨rfl, s.machine.tick_keeps_or_ends.resolve_left left⟩
  | dispatch | world =>
    cases step
    exact absurd ⟨rfl, id⟩ left

/-- Each time winding stops, what was retired of the session is the motion of the lines from its
start to the cursor. A frame goes to its next stage, and a session is forgotten, only in a period of
winding after which this holds for all lines from the start on. -/
theorem Run.stop_conserves (begins : s₀.Begins) (run : Run accounts s₀ s a)
    {r : Except (MachineError R) Unit} (step : s.perform e = (r, s')) :
    (r = .ok () → s.machine.mode = .wind → s'.machine.mode = .stop →
      ∃ sess, s.machine.executor.session = some sess ∧
        (accounts.follow s e a).ledger.Conserves sess.start
          (s'.machine.executor.line?.getD sess.cursor)) ∧
    (s'.machine.record.stage ≠ s.machine.record.stage ∨
        s.machine.executor.session.isSome ∧ s'.machine.executor.session.isNone →
      s.machine.mode = .wind ∧ ∃ sess, s.machine.executor.session = some sess ∧
        sess.cursor = sess.lines.length ∧
        (accounts.follow s e a).ledger.Conserves sess.start sess.lines.length) := by
  have wound (wind : s.machine.mode = .wind) :
      accounts.follow s (.tick : Event σ R) a = a.wound s.machine := if_pos wind
  have kept := run.kept begins
  constructor
  · rintro rfl wind stop
    obtain rfl := eq_tick_of_stop wind stop step
    obtain ⟨active, state⟩ := (run.orderly begins).wind wind
    obtain ⟨sess, session⟩ := Option.isSome_iff_exists.mp active
    obtain ⟨i, kept'⟩ := kept.windCourse session
    refine ⟨sess, session, ?_⟩
    rw [wound wind]
    rcases Machine.tick_wind wind (tick_eq_ok step) with
      ⟨-, records, files, e, -⟩ | ⟨error, empty, records, files, e, -⟩ |
      ⟨done, empty, same, records, files, -, e, -⟩ | idle
    · rw [e] at stop
      cases wind.symm.trans stop
    · have line : s'.machine.executor.line? = some i := by
        rw [e]
        exact congrArg (Option.map Session.cursor) kept'.coherent.session
      rw [line]
      exact kept'.conserves (by rw [empty, Queue.motion_nil])
    · obtain ⟨cursor, conserves⟩ := kept.ends session ⟨done, empty, same⟩
      have line : s'.machine.executor.line? = none := by rw [e]; rfl
      rw [line]
      exact cursor.symm ▸ conserves
    · exact absurd idle state
  · intro advanced
    have left : ¬s.machine.Keeps s'.machine := by
      rintro ⟨stage, loaded⟩
      rcases advanced with advanced | ⟨session, forgotten⟩
      · exact advanced stage
      · rw [Option.isNone_iff_eq_none.mp forgotten] at loaded
        cases loaded session
    obtain ⟨rfl, wind, ends⟩ := ends_of_not_keeps step left
    obtain ⟨sess, session⟩ := Option.isSome_iff_exists.mp ((run.orderly begins).wind wind).1
    obtain ⟨cursor, conserves⟩ := kept.ends session ends
    rw [wound wind]
    exact ⟨wind, sess, session, cursor, conserves⟩

/-- On the bench the recipe is finished in the next period. -/
theorem bench_finishes :
    ∃ (s s' : Station Bench.Plc Whole) (a : Account Whole),
      Run accounts Bench.station s a ∧ s.perform .tick = (.ok (), s') ∧
      s.machine.executor.session.isSome ∧ s'.machine.executor.session = none ∧
      s'.machine.record.stage ≠ s.machine.record.stage ∧
      s'.machine.record.wound = [("X", ⟨9⟩)] ∧ a.ledger.retired.length = 3 := by
  have reached : (Bench.station.performAll accounts (accounts.initial Bench.station)
      Bench.winding).any (fun (s, a) =>
        (s.perform .tick).1.isOk ∧ s.machine.executor.session.isSome ∧
          (s.perform .tick).2.machine.executor.session.isNone ∧
          (s.perform .tick).2.machine.record.stage ≠ s.machine.record.stage ∧
          (s.perform .tick).2.machine.record.wound = [("X", ⟨9⟩)] ∧
          a.ledger.retired.length = 3) = true := by
    decide +kernel
  obtain ⟨⟨s, a⟩, performed, facts⟩ := (Option.any_eq_true ..).mp reached
  obtain ⟨ok, session, forgotten, stage, wound, retired⟩ := of_decide_eq_true facts
  rcases ticked : s.perform .tick with ⟨_ | ⟨⟩, s'⟩
  · rw [ticked] at ok
    cases ok
  · rw [ticked] at forgotten stage wound
    exact ⟨s, s', a, Run.start.performAll performed, ticked, session,
      Option.isNone_iff_eq_none.mp forgotten, stage, wound, retired⟩

/-- There it is finished after its three primitives. -/
theorem bench_conserves :
    ∃ (s s' : Station Bench.Plc Whole) (a : Account Whole) (sess : Session Whole),
      Run accounts Bench.station s a ∧ s.perform .tick = (.ok (), s') ∧
      a.ledger.retired.length = 3 ∧ s.machine.executor.session = some sess ∧
      sess.cursor = sess.lines.length ∧
      (accounts.follow s .tick a).ledger.Conserves sess.start sess.lines.length := by
  obtain ⟨s, s', a, run, ticked, -, -, stage, -, retired⟩ := bench_finishes
  obtain ⟨-, sess, session, cursor, conserves⟩ :=
    (run.stop_conserves Bench.station_begins ticked).2 (.inl stage)
  exact ⟨s, s', a, sess, run, ticked, retired, session, cursor, conserves⟩

end Station

end Winding

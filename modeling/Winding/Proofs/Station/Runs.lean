import Winding.Proofs.Controller.Turns
import Winding.Proofs.Machine.Handling
import Winding.Proofs.Machine.WindPeriods
import Winding.Station.Basic

/-!
# Runs of a station

A run starts with a machine that was just made, or that has booted (`Station.Begins`), and takes
commands, cycles of the dispatcher and periods of the machine in any order, while the controller and
the files do what they like (`Station.Event`). It ends when the machine cannot go on. An observer
may write down what it sees (`Station.Run`). At every point the machine is in order
(`Station.Run.orderly`): a stopped machine has nothing queued, and a machine that winds has a
session.
-/

namespace Winding

variable {σ R : Type} [Scalar R]

/-! ## The beginning -/

/-- A machine that was just made. -/
structure Machine.IsFresh (m : Machine R) : Prop where
  mode : m.mode = .stop
  queue : m.queue.entries = []
  session : m.executor.session = none
  start : m.startRequested = false
  manual : m.pendingManual = []
  calibration : m.pendingCalibration = none
  visit : m.visit = .none

namespace Station

/-- The machine of a station was just made, or has booted after that. -/
def Begins (s : Station σ R) : Prop :=
  ∃ m : Machine R, m.IsFresh ∧ (s.machine = m ∨ m.boot = (.ok (), s.machine))

end Station

theorem Machine.executorOf_idle {c : Configuration R} {d : DataDirectory} {x : Executor R}
    (h : executorOf c d = .ok x) : x.session = none ∧ x.state = .idle := by
  obtain ⟨_, -, h⟩ := bind_eq_ok h
  obtain ⟨_, -, h⟩ := bind_eq_ok h
  cases h
  exact ⟨rfl, rfl⟩

theorem Machine.make_fresh {c : Configuration R} {files files' : FileStore} {d : DataDirectory}
    {exchange : Exchange R} {now : Timestamp} {m : Machine R}
    (h : Machine.make c files d exchange now = (.ok m, files'))
    (empty : exchange.queue.entries = []) : m.IsFresh ∧ m.executor.state = .idle := by
  unfold make at h
  split at h
  · cases h
  · next x made =>
    split at h
    · cases h
    · split at h
      · cases h
      · cases h
        obtain ⟨session, state⟩ := executorOf_idle made
        exact ⟨⟨rfl, empty, session, rfl, rfl, rfl, rfl⟩, state⟩

/-- A station starts in a directory that was prepared, with a machine that was made for an empty
queue and the status that the controller answered a first poll with, and that has booted. -/
theorem Station.start_eq_ok [Adapter σ] {c : Configuration R} {files files' : FileStore}
    {d : DataDirectory} {plc : σ} {clock : Nat} {now : Timestamp} {s : Station σ R}
    (h : Station.start c files d plc clock now = (.ok s, files')) :
    ∃ (prepared files₁ : FileStore) (status : ControllerStatus R) (link : Link R) (plc' : σ)
        (waited : Nat) (m : Machine R),
      d.prepare files = (prepared, .ok ()) ∧
      (Link.make c.machine.controllerTimeoutMillis).poll plc = (.ok status, link, plc', waited) ∧
      Machine.make c prepared d ⟨.empty c.machine.queueCapacity, status⟩ now = (.ok m, files₁) ∧
      m.boot = (.ok (), s.machine) ∧ s.dispatcher = .make link c.machine.moveTimeoutMillis := by
  unfold start at h
  split at h
  · cases h
  · next prepared ready =>
    split at h
    · cases h
    · next status link plc' waited polled =>
      split at h
      · cases h
      · next started =>
        cases h
        unfold startMachine at started
        split at started
        · cases started
        · next m files₁ made =>
          split at started
          · cases started
          · next booted =>
            cases started
            exact ⟨prepared, files₁, status, link, plc', waited, m, ready, polled, made, booted,
              rfl⟩

/-- A station that starts begins a run. -/
theorem Station.start_begins [Adapter σ] {c : Configuration R} {files files' : FileStore}
    {d : DataDirectory} {plc : σ} {clock : Nat} {now : Timestamp} {s : Station σ R}
    (h : Station.start c files d plc clock now = (.ok s, files')) : s.Begins := by
  obtain ⟨_, _, _, _, _, _, m, -, -, made, booted, -⟩ := start_eq_ok h
  exact ⟨m, (Machine.make_fresh made rfl).1, .inr booted⟩

/-! ## Booting -/

namespace Machine

variable {m m' : Machine R}

omit [Scalar R] in
/-- The executor of a machine that boots, before a recipe is loaded again. -/
def bootExecutor (m : Machine R) : Executor R :=
  if m.status.responsive then m.executor.syncPosition m.status.position else m.executor

omit [Scalar R] in
theorem bootExecutor_same (m : Machine R) :
    m.bootExecutor.session = m.executor.session ∧ m.bootExecutor.state = m.executor.state := by
  obtain ⟨session, -, state⟩ := m.executor.syncPosition_fields m.status.position
  unfold bootExecutor
  split
  · exact ⟨session, state⟩
  · exact ⟨rfl, rfl⟩

/-- A machine boots with an entry in the journal, and loads the recipe in progress. -/
theorem boot_eq (m : Machine R) :
    m.boot =
      let noted := m.note "machine" "boot" "host started" [("apa", m.record.name)]
      match m.record.recipe with
      | none => (.ok (), { noted with executor := m.bootExecutor })
      | some recipe =>
        let (result, x) := m.bootExecutor.load noted.files recipe (m.record.line.getD 0)
        match result with
        | .ok () => (.ok (), { noted with executor := x })
        | .error e =>
          bootFailed { noted with executor := x } recipe (m.record.line.getD 0) e.message := by
  have booted (noted : Machine R) (e : noted = m.note "machine" "boot" "host started"
      [("apa", m.record.name)]) :
      (if noted.status.responsive then
        { noted with executor := noted.executor.syncPosition noted.status.position } else noted) =
      { noted with executor := m.bootExecutor } := by
    subst e
    unfold bootExecutor
    rw [show (m.note "machine" "boot" "host started" [("apa", m.record.name)]).status = m.status
      from rfl]
    split
    · rfl
    · rfl
  rcases known : m.record.recipe with _ | path
  · simp only [boot, known, booted _ rfl]
  · rcases loaded : m.bootExecutor.load
      (m.note "machine" "boot" "host started" [("apa", m.record.name)]).files path
      (m.record.line.getD 0) with ⟨e | ⟨⟩, x⟩
    · simp only [boot, known, booted _ rfl, loaded]
    · simp only [boot, known, booted _ rfl, loaded]

/-- A machine that has booted has the session that it had, or the recipe in progress at its line. -/
theorem boot_eq_ok (h : m.boot = (.ok (), m')) :
    (∃ (x : Executor R) (error : Option String),
      (x.session = m.executor.session ∧ x.state = m.executor.state) ∧
      Noted { m with executor := x, lastError := error } m') ∨
    ∃ (x : Executor R) (s : Session R), s.start = s.cursor ∧ s.cursor ≤ s.lines.length ∧
      m.record.recipe.isSome ∧
      m.record.line.getD 0 = s.start ∧ Noted { m with executor := x.begin s } m' := by
  rw [boot_eq] at h
  simp only at h
  obtain ⟨records, files, noted, same⟩ :=
    m.note_noted "machine" "boot" "host started" [("apa", m.record.name)]
  rw [noted] at h
  split at h
  · cases h
    exact .inl ⟨m.bootExecutor, m.lastError, m.bootExecutor_same, records, files, rfl, same⟩
  · next recipe known =>
    rcases hl : m.bootExecutor.load files recipe (m.record.line.getD 0) with ⟨e | ⟨⟩, x⟩
    · simp only [hl] at h
      obtain ⟨library, rfl⟩ := Executor.load_eq_error hl
      obtain ⟨_, m₂, saved, h⟩ := Outcome.andThen_eq_ok h
      have failed : Noted { m with executor := { m.bootExecutor with library := library } } m₂ :=
        .trans ⟨records, files, rfl, same⟩
          ((withRecord_noted _ ⟨rfl, rfl, rfl, rfl⟩).trans (save_eq_ok saved))
      obtain ⟨records', files', rfl, same'⟩ := failed
      cases h
      exact .inl ⟨{ m.bootExecutor with library := library }, some e.message,
        m.bootExecutor_same, records', _, rfl, same'⟩
    · simp only [hl] at h
      cases h
      obtain ⟨library, s, start, cursor, le, rfl⟩ := Executor.load_eq_ok hl
      exact .inr ⟨_, s, start.trans cursor.symm, cursor ▸ le, by rw [known]; rfl, start.symm,
        records, files, rfl, same⟩

end Machine

/-- A machine at the beginning of a run. -/
structure Machine.AtStart (m : Machine R) : Prop where
  mode : m.mode = .stop
  queue : m.queue.entries = []
  start : m.startRequested = false
  manual : m.pendingManual = []
  calibration : m.pendingCalibration = none
  visit : m.visit = .none
  /-- A session is the recipe in progress, at its line. -/
  session : m.executor.session = none ∨ ∃ (x : Executor R) (s : Session R),
    m.executor = x.begin s ∧ s.start = s.cursor ∧ s.cursor ≤ s.lines.length ∧
      m.record.recipe.isSome ∧ m.record.line.getD 0 = s.start

theorem Station.Begins.atStart {s : Station σ R} (h : s.Begins) : s.machine.AtStart := by
  obtain ⟨m, fresh, e | booted⟩ := h
  · rw [e]
    exact ⟨fresh.mode, fresh.queue, fresh.start, fresh.manual, fresh.calibration, fresh.visit,
      .inl fresh.session⟩
  · rcases Machine.boot_eq_ok booted with ⟨x, error, ⟨session, -⟩, records, files, e, -⟩ |
      ⟨x, sess, start, cursor, recipe, line, records, files, e, -, recipe', line', -⟩
    · rw [e]
      exact ⟨fresh.mode, fresh.queue, fresh.start, fresh.manual, fresh.calibration, fresh.visit,
        .inl (session.trans fresh.session)⟩
    · rw [e]
      refine ⟨fresh.mode, fresh.queue, fresh.start, fresh.manual, fresh.calibration, fresh.visit,
        .inr ⟨x, sess, rfl, start, cursor, ?_, ?_⟩⟩
      · exact recipe'.symm ▸ recipe
      · exact line'.symm ▸ line

/-! ## Events -/

/-- What can happen at a station. -/
inductive Station.Event (σ R : Type) where
  | command (c : Operator.Command R)
  /-- A cycle of the dispatcher. -/
  | dispatch
  /-- A period of the machine. -/
  | tick
  /-- The controller, the files and the time change without the station. -/
  | world (plc : σ) (files : FileStore) (clock : Nat) (now : Timestamp)

namespace Station

variable [Adapter σ]

/-- The station after an event, or the error with which the machine cannot go on. -/
def perform (s : Station σ R) : Event σ R → Except (MachineError R) Unit × Station σ R
  | .command c =>
    ((s.machine.handle c).1.map fun _ => (), { s with machine := (s.machine.handle c).2 })
  | .dispatch => (.ok (), s.dispatch)
  | .tick => s.after s.machine.tick
  | .world plc files clock now =>
    (.ok (), { s with
      machine := { s.machine with files := files, now := now }, plc := plc, clock := clock })

/-- Someone who writes down what they see at a station. -/
structure Observer (σ R α : Type) where
  /-- What is written at the beginning. -/
  initial : Station σ R → α
  /-- What is written after an event, which is about to happen at a station. -/
  follow : Station σ R → Event σ R → α → α

/-- The station and the notes of an observer are reached from a station. -/
inductive Run {α : Type} (o : Observer σ R α) (s₀ : Station σ R) : Station σ R → α → Prop
  | start : Run o s₀ s₀ (o.initial s₀)
  | next {s s' : Station σ R} {a : α} {e : Event σ R} (run : Run o s₀ s a)
      (step : s.perform e = (.ok (), s')) : Run o s₀ s' (o.follow s e a)

variable {α : Type} {o : Observer σ R α} {s₀ s s' : Station σ R} {a a' : α} {e : Event σ R}

/-- The station and the notes of an observer after events, unless the machine cannot go on. -/
def performAll (o : Observer σ R α) (s : Station σ R) (a : α) :
    List (Event σ R) → Option (Station σ R × α)
  | [] => some (s, a)
  | e :: es =>
    match s.perform e with
    | (.ok (), s') => s'.performAll o (o.follow s e a) es
    | (.error _, _) => none

theorem performAll_cons {es : List (Event σ R)}
    (h : s.performAll o a (e :: es) = some (s', a')) :
    ∃ s₁, s.perform e = (.ok (), s₁) ∧ s₁.performAll o (o.follow s e a) es = some (s', a') := by
  unfold performAll at h
  split at h
  · next s₁ step => exact ⟨s₁, step, h⟩
  · cases h

theorem perform_of_isOk (h : (s.perform e).1.isOk = true) :
    s.perform e = (.ok (), (s.perform e).2) := by
  rcases performed : s.perform e with ⟨_ | ⟨⟩, s'⟩
  · rw [performed] at h
    cases h
  · rfl

/-- A run goes on with events. -/
theorem Run.performAll {es : List (Event σ R)} (run : Run o s₀ s a)
    (h : s.performAll o a es = some (s', a')) : Run o s₀ s' a' := by
  induction es generalizing s a with
  | nil =>
    cases h
    exact run
  | cons e es ih =>
    obtain ⟨s₁, step, h⟩ := performAll_cons h
    exact ih (run.next step) h

/-- What holds at the beginning and is kept by every event holds in every run. -/
theorem Run.invariant {P : Station σ R → α → Prop} (run : Run o s₀ s a)
    (start : P s₀ (o.initial s₀))
    (next : ∀ s s' a e, P s a → s.perform e = (.ok (), s') → P s' (o.follow s e a)) : P s a := by
  induction run with
  | start => exact start
  | next _ step ih => exact next _ _ _ _ ih step

/-- A run can be watched by another observer. -/
theorem Run.observed {β : Type} (o' : Observer σ R β) (run : Run o s₀ s a) :
    ∃ b, Run o' s₀ s b := by
  induction run with
  | start => exact ⟨_, .start⟩
  | next _ step ih =>
    obtain ⟨b, run⟩ := ih
    exact ⟨_, run.next step⟩

/-! ## Events as changes of the machine -/

omit [Scalar R] [Adapter σ] in
theorem after_eq_ok {α : Type} {o : Outcome R α} {b : α} (h : s.after o = (.ok b, s')) :
    o = (.ok b, s'.machine) := by
  obtain ⟨r, m⟩ := o
  obtain ⟨rfl, rfl⟩ := Prod.mk.inj h
  rfl

theorem tick_eq_ok (h : s.perform .tick = (.ok (), s')) :
    s.machine.tick = (.ok (), s'.machine) :=
  after_eq_ok h

theorem command_eq_ok {c : Operator.Command R} (h : s.perform (.command c) = (.ok (), s')) :
    s.machine.Handled c s'.machine := by
  rcases hh : s.machine.handle c with ⟨e | reply, m⟩
  · simp only [perform, hh] at h
    cases h
  · simp only [perform, hh] at h
    cases h
    exact Machine.handle_eq_ok hh

theorem dispatch_retires (s : Station σ R) :
    s.machine.queue.Retires s.dispatch.machine.queue :=
  Dispatcher.cycle_retires ..

end Station

/-! ## Order -/

/-- The state of the machine fits its mode. -/
structure Machine.Orderly (m : Machine R) : Prop where
  /-- Nothing is queued while the machine is stopped. -/
  stop : m.mode = .stop → m.queue.entries = []
  /-- Only manual motion is queued outside winding. -/
  motion : m.mode ≠ .wind → Queue.motion m.queue.entries = []
  /-- Nothing is queued until the move to the pin is. -/
  visit : m.mode = .calibration → (∀ pin, m.visit ≠ .issued pin) → m.queue.entries = []
  /-- A session is wound. -/
  wind : m.mode = .wind → m.course.IsActive
  /-- A session can be wound when the operator asked for it. -/
  start : m.startRequested = true → m.mode = .stop ∧ m.course.IsActive

namespace Machine

variable {m m' : Machine R}

section

omit [Scalar R]

/-- A stopped machine with an empty queue is in order. -/
theorem Orderly.of_stop (mode : m.mode = .stop) (queue : m.queue.entries = [])
    (start : m.startRequested = false) : m.Orderly where
  stop _ := queue
  motion _ := by rw [queue, Queue.motion_nil]
  visit h := nomatch mode.symm.trans h
  wind h := nomatch mode.symm.trans h
  start h := nomatch start.symm.trans h

theorem Orderly.of_manual (mode : m.mode = .manual) (motion : Queue.motion m.queue.entries = [])
    (start : m.startRequested = false) : m.Orderly where
  stop h := nomatch mode.symm.trans h
  motion _ := motion
  visit h := nomatch mode.symm.trans h
  wind h := nomatch mode.symm.trans h
  start h := nomatch start.symm.trans h

theorem Orderly.of_calibration (mode : m.mode = .calibration)
    (motion : Queue.motion m.queue.entries = [])
    (visit : (∀ pin, m.visit ≠ .issued pin) → m.queue.entries = [])
    (start : m.startRequested = false) : m.Orderly where
  stop h := nomatch mode.symm.trans h
  motion _ := motion
  visit _ := visit
  wind h := nomatch mode.symm.trans h
  start h := nomatch start.symm.trans h

theorem Orderly.of_wind (mode : m.mode = .wind) (active : m.course.IsActive)
    (start : m.startRequested = false) : m.Orderly where
  stop h := nomatch mode.symm.trans h
  motion h := absurd mode h
  visit h := nomatch mode.symm.trans h
  wind _ := active
  start h := nomatch start.symm.trans h

/-- Only a stopped machine has a start to come. -/
theorem Orderly.start_of_ne (h : m.Orderly) (mode : m.mode ≠ .stop) : m.startRequested = false := by
  by_contra start
  exact mode (h.start (by simpa using start)).1

end

theorem Orderly.tick_stop (h : m.Orderly) (mode : m.mode = .stop)
    (ticked : m.tick = (.ok (), m')) : m'.Orderly := by
  have queue := h.stop mode
  have motion : Queue.motion m.queue.entries = [] := by rw [queue, Queue.motion_nil]
  rcases Machine.tick_stop mode ticked with
    - | ⟨-, start, noted⟩ | ⟨pin, -, start, -, noted⟩ | ⟨-, start, -, -, noted⟩ | ⟨start, -, -⟩
  · exact .of_stop mode queue rfl
  · have active := (h.start start).2
    obtain ⟨records, files, rfl, -⟩ := noted
    unfold enterWind
    split
    · exact .of_wind rfl active rfl
    · exact .of_wind rfl active rfl
  · obtain ⟨records, files, rfl, -⟩ := noted
    exact .of_calibration rfl motion (fun _ => queue) start
  · obtain ⟨records, files, rfl, -⟩ := noted
    exact .of_manual rfl motion start
  · exact .of_stop mode queue start

theorem Orderly.tick_manual (h : m.Orderly) (mode : m.mode = .manual)
    (ticked : m.tick = (.ok (), m')) : m'.Orderly := by
  have start : m.startRequested = false := h.start_of_ne (by rw [mode]; decide)
  have motion : Queue.motion m.queue.entries = [] := h.motion (by rw [mode]; decide)
  rcases Machine.tick_manual mode ticked with
    ⟨reason, -, noted⟩ | ⟨-, -⟩ | ⟨-, -, pushes⟩ | ⟨message, -, -, noted⟩ | - | ⟨-, empty, noted⟩
  · obtain ⟨records, files, rfl, -⟩ := noted
    exact .of_stop rfl rfl start
  · exact h
  · exact .of_manual mode (pushes.motion.trans motion) start
  · obtain ⟨records, files, rfl, -⟩ := noted
    exact .of_manual mode motion start
  · exact .of_manual mode motion start
  · obtain ⟨records, files, rfl, -⟩ := noted
    exact .of_stop rfl empty start

theorem Orderly.tick_calibration (h : m.Orderly) (mode : m.mode = .calibration)
    (ticked : m.tick = (.ok (), m')) : m'.Orderly := by
  have start : m.startRequested = false := h.start_of_ne (by rw [mode]; decide)
  have motion : Queue.motion m.queue.entries = [] := h.motion (by rw [mode]; decide)
  rcases Machine.tick_calibration mode ticked with
    ⟨reason, -, noted⟩ | ⟨error, ended, noted⟩ | - | ⟨-, wanted, pushes⟩
  · obtain ⟨records, files, rfl, -⟩ := noted
    exact .of_stop rfl rfl start
  · obtain ⟨records, files, rfl, -⟩ := noted
    have empty : m.queue.entries = [] := ended.elim (h.visit mode) id
    exact .of_stop rfl empty start
  · exact h
  · exact .of_calibration mode (pushes.motion.trans motion) (fun h => absurd rfl (h _)) start

theorem Orderly.tick_wind (h : m.Orderly) (mode : m.mode = .wind)
    (ticked : m.tick = (.ok (), m')) : m'.Orderly := by
  have start : m.startRequested = false := h.start_of_ne (by rw [mode]; decide)
  rcases Machine.tick_wind mode ticked with
    ⟨active, records, files, rfl, -⟩ | ⟨error, empty, records, files, rfl, -⟩ |
    ⟨-, empty, -, records, files, -, rfl, -⟩ | idle
  · exact .of_wind mode (active (h.wind mode)) start
  · exact .of_stop rfl empty start
  · exact .of_stop rfl empty start
  · exact absurd idle (h.wind mode).2

/-- A period keeps the machine in order. -/
theorem Orderly.tick (h : m.Orderly) (ticked : m.tick = (.ok (), m')) : m'.Orderly := by
  rcases mode : m.mode with _ | _ | _ | _
  · exact h.tick_stop mode ticked
  · exact h.tick_manual mode ticked
  · exact h.tick_wind mode ticked
  · exact h.tick_calibration mode ticked

omit [Scalar R] in
/-- A session that was armed can be wound. -/
theorem armed_active {x y : Executor R} {q : Queue R} (session : x.session.isSome)
    (armed : x.arm = .ok y) : Course.IsActive ⟨y, q⟩ := by
  unfold Executor.arm at armed
  split at armed
  · next state =>
    cases armed
    exact ⟨session, by rw [state]; exact nofun⟩
  · next state =>
    cases armed
    exact ⟨session, by rw [state]; exact nofun⟩
  · next state =>
    cases armed
    exact ⟨session, by rw [state]; exact nofun⟩
  · rw [if_pos session] at armed
    cases armed
    exact ⟨session, nofun⟩
  · next state =>
    rw [Executor.clearFault, if_pos state, if_pos session] at armed
    cases armed
    exact ⟨session, nofun⟩
  · cases armed
  · cases armed

theorem Orderly.handle {c : Operator.Command R} (h : m.Orderly) (handled : m.Handled c m') :
    m'.Orderly := by
  rcases handled with
    - | - | ⟨-, mode, session, armed⟩ | ⟨request, -, -, -, -, -⟩ | ⟨pin, -, -, -, -⟩ | - |
    ⟨library, -, -, noted⟩ | ⟨library, path, mode, -, -, -, noted⟩
  · exact h
  · exact ⟨h.stop, h.motion, h.visit, h.wind, nofun⟩
  · exact ⟨h.stop, h.motion, h.visit, (fun wind => nomatch mode.symm.trans wind),
      fun _ => ⟨mode, armed_active session armed⟩⟩
  · exact ⟨h.stop, h.motion, h.visit, h.wind, h.start⟩
  · exact ⟨h.stop, h.motion, h.visit, h.wind, h.start⟩
  · exact ⟨h.stop, h.motion, h.visit, h.wind, nofun⟩
  · obtain ⟨records, files, rfl, -⟩ := noted
    exact ⟨h.stop, h.motion, h.visit, h.wind, h.start⟩
  · obtain ⟨records, files, rfl, -⟩ := noted
    exact ⟨h.stop, h.motion, h.visit, (fun wind => nomatch mode.symm.trans wind),
      fun _ => ⟨mode, rfl, nofun⟩⟩

end Machine

namespace Station

variable [Adapter σ] {α : Type} {o : Observer σ R α} {s₀ s s' : Station σ R} {a : α}

/-- An event keeps the machine in order. -/
theorem perform_orderly {e : Event σ R} (h : s.machine.Orderly)
    (step : s.perform e = (.ok (), s')) : s'.machine.Orderly := by
  cases e with
  | command c => exact h.handle (command_eq_ok step)
  | dispatch =>
    cases step
    obtain ⟨k, -, entries, -⟩ := s.dispatch_retires
    refine ⟨fun mode => ?_, fun mode => ?_, fun mode visit => ?_, h.wind, h.start⟩
    · rw [entries, h.stop mode, List.drop_nil]
    · rw [entries]
      exact Queue.motion_drop_eq_nil k (h.motion mode)
    · rw [entries, h.visit mode visit, List.drop_nil]
  | tick => exact h.tick (tick_eq_ok step)
  | world plc files clock now =>
    cases step
    exact ⟨h.stop, h.motion, h.visit, h.wind, h.start⟩

/-- The machine is in order in every run. -/
theorem Run.orderly (begins : s₀.Begins) (run : Run o s₀ s a) : s.machine.Orderly :=
  run.invariant (.of_stop begins.atStart.mode begins.atStart.queue begins.atStart.start)
    fun _ _ _ _ h step => perform_orderly h step

end Station

/-! ## A station on the bench -/

namespace Bench

/-- A controller that is busy for one poll after each submission. -/
structure Plc where
  connected : Bool
  busy : Bool
deriving DecidableEq, Repr

instance : Adapter Plc where
  functional c := c.connected
  read c tag :=
    if tag = Tag.ready then (.ok (.flag !c.busy), { c with busy := false }) else (.ok (.word 0), c)
  write c tag _ := (.ok (), if tag = Tag.moveType then { c with busy := true } else c)

/-- The text of a recipe: a move with a pause after it, a line that only sets the feed, and another
move. -/
def recipeText : String :=
  "(LAYER X)\nG1 X3 Y4 M0\nF100\nG1 Y0\n" ++
    "(SHA256 b2653455ae4859865bd73852b3e896d4c40d2fe832a68a243c88403f6c3547c1)\n"

/-- A machine that was just made, with a recipe among its files. -/
def machine : Machine Whole where
  files := (FileStore.empty []).putFile ["recipe"] recipeText.toUTF8
  directory := ⟨"/"⟩
  executor := executor
  exchange := ⟨.empty 8, .unknown⟩
  records := .ofRecord "/record" 1 (.fresh "A")
  journal := ⟨"/journal", 1⟩
  periodMillis := 100
  now := .epoch
  mode := .stop
  stopRequested := false
  startRequested := false
  shutdownRequested := false
  pendingManual := []
  pendingCalibration := none
  visit := .none
  lastError := none
  woundBase := ⟨0⟩

/-- The machine with its controller. -/
def station : Station Plc Whole := ⟨machine, .make (.make 100) 1000, ⟨true, false⟩, 0⟩

theorem station_begins : station.Begins :=
  ⟨machine, ⟨rfl, rfl, rfl, rfl, rfl, rfl, rfl⟩, .inl rfl⟩

/-- The controller is connected, or not any more. -/
def connect (connected : Bool) : Station.Event Plc Whole :=
  .world ⟨connected, false⟩ machine.files 0 .epoch

/-- The recipe is wound up to its last motion. The controller fails under the first line, which is
wound again, and winding stops at the pause after it. -/
def winding : List (Station.Event Plc Whole) :=
  [.command (.load "/recipe" none), .dispatch, .command .start, .tick, .tick, .dispatch,
    connect false, .dispatch, .tick, connect true, .dispatch, .command .start, .tick, .tick,
    .dispatch, .dispatch, .dispatch, .tick, .command .start, .tick, .tick, .dispatch, .dispatch,
    .dispatch]

end Bench

end Winding

import Winding.Proofs.Execution.Restart
import Winding.Proofs.Machine.Startup
import Winding.Proofs.Station.Runs

/-!
# Resuming a recipe

A machine that stopped is replaced by one that was made from its files, for a controller at the same
position (`Machine.Restarts`). The new machine has the same recipe under the same line, and every
line that both can plan it queues with the same primitives (`Machine.Restarts.resumes`). The side of
the head and the direction of the last travel are not kept in the record: a restart takes the head
to be in front, and has no direction, so that a seek along the last travel is refused until the
machine has moved.
-/

namespace Winding

variable {R : Type} [Scalar R]

/-- The plan with which an executor at rest goes on at a line, in sequence from its pose. -/
def Executor.sequel? (x : Executor R) (i : Nat) : Option (LinePlan R) :=
  x.session.bind fun s => s.fromCursor.plan? x.context x.pose i

namespace Machine

/-- A machine that stopped under a line of a session, and one that was made from the files that it
left, for a controller that reports the same position. -/
structure Restarts (c : Configuration R) (d : DataDirectory) (m m₀ : Machine R) (s : Session R)
    (path : String) : Prop where
  stopped : m.mode = .stop
  drained : m.queue.entries = []
  rest : m.executor.AtRest s
  /-- The record is saved, with the recipe and the line. -/
  saved : ∃ text, m.files.readText (d.recordPath c.machine.apaName) = .ok text ∧
    ApaRecord.ofText text = .ok m.record
  recipe : m.record.recipe = some path
  line : m.record.line = some s.cursor
  made : ∃ exchange now files, Machine.make c m.files d exchange now = (.ok m₀, files) ∧
    exchange.queue.entries = []
  context : m.executor.context = m₀.executor.context
  /-- The files still hold the recipe and the calibration of the session. -/
  loaded : ∃ recipe layer, s.LoadedFrom m₀.executor m.files path recipe layer
  /-- Neither of them is the journal. -/
  apart : ∀ p ∈ [path, m₀.executor.library.pathOf s.layer], ∀ content serial,
    m.files.find p = .ok (.file content serial) → serial ≠ m₀.journal.serial
  responsive : m₀.status.responsive = true
  position : m₀.status.position = m.executor.pose.position

namespace Restarts

variable {c : Configuration R} {d : DataDirectory} {m m₀ : Machine R} {s : Session R}
  {path : String}

/-- The new machine is at rest, with the record of the old one. -/
theorem fresh (h : Restarts c d m m₀ s path) : m₀.queue.entries = [] ∧ m₀.record = m.record ∧
    m.files.Extends m₀.files ∧ m₀.executor.state = .idle ∧ m₀.executor.pose.head = .front ∧
    m₀.executor.pose.direction = none := by
  obtain ⟨exchange, now, files, made, empty⟩ := h.made
  obtain ⟨x, records, journal, executor, read, opened, rfl⟩ := Machine.make_eq_ok made
  obtain ⟨context, layers, rfl⟩ := Machine.executorOf_eq_ok executor
  refine ⟨empty, ?_, Journal.openAt_extends opened, rfl, rfl, rfl⟩
  obtain ⟨text, kept, written⟩ := h.saved
  obtain ⟨r, rfl, ⟨absent, -⟩ | ⟨text', kept', written'⟩⟩ := RecordStore.load_eq_ok read
  · cases (FileStore.contains_of_readText kept).symm.trans absent
  · cases kept.symm.trans kept'
    exact Except.ok.inj (written'.symm.trans written)

/-- The new machine boots with the recipe under the line at which the old one stopped. -/
theorem boots (h : Restarts c d m m₀ s path) : ∃ m', m₀.boot = (.ok (), m') ∧
    m'.queue.entries = [] ∧ m'.executor.session = some s.fromCursor ∧
    m'.executor.state = .ready ∧ m'.executor.inFlight = [] ∧
    m'.executor.context = m.executor.context ∧
    m'.executor.pose = { m₀.executor.pose with position := m.executor.pose.position } := by
  obtain ⟨empty, record, extended, idle, -⟩ := h.fresh
  obtain ⟨recipe, layer, loaded⟩ := h.loaded
  have synced : m₀.bootExecutor = { m₀.executor with
      pose := { m₀.executor.pose with position := m.executor.pose.position } } := by
    rw [bootExecutor, if_pos h.responsive, Executor.syncPosition, h.position,
      if_neg (by rw [idle]; decide)]
  have waiting : m₀.bootExecutor.state.isRunning = false := by
    rw [synced]
    exact congrArg ExecutorState.isRunning idle
  -- The entry that is written first does not reach the files that are read.
  obtain ⟨library, again⟩ := loaded.load m₀.bootExecutor
    (m₀.note "machine" "boot" "host started" [("apa", m₀.record.name)]).files s.cursor
    waiting (by rw [synced]) (by rw [synced]) h.rest.cursor_le fun p hp text read => by
      refine FileStore.readText_append (extended.readText read) fun old k found => ?_
      obtain ⟨content, read, -⟩ := FileStore.readText_eq_ok_iff.mp read
      obtain ⟨serial, found'⟩ := FileStore.read_eq_ok_iff.mp read
      cases (extended.find found').symm.trans found
      exact h.apart p hp _ _ found'
  have booted : m₀.boot = (.ok (),
      { m₀.note "machine" "boot" "host started" [("apa", m₀.record.name)] with
        executor := { m₀.bootExecutor with library := library }.begin s.fromCursor }) := by
    have progress : m₀.record.recipe = some path ∧ m₀.record.line = some s.cursor :=
      record ▸ ⟨h.recipe, h.line⟩
    rw [boot_eq]
    simp only [progress.1, progress.2, Option.getD_some, again]
    rfl
  have pose : m₀.bootExecutor.pose = { m₀.executor.pose with
      position := m.executor.pose.position } := by rw [synced]
  have context : m₀.bootExecutor.context = m₀.executor.context := by rw [synced]
  exact ⟨_, booted, empty, rfl, rfl, rfl, context.trans h.context.symm, pose⟩

/-- Of the pose only the position is known again. -/
theorem pose_resumes (h : Restarts c d m m₀ s path) :
    m.executor.pose.Resumes (m.executor.pose.head ≠ .front) (m.executor.pose.direction ≠ none)
      { m₀.executor.pose with position := m.executor.pose.position } := by
  obtain ⟨-, -, -, -, head, direction⟩ := h.fresh
  refine ⟨rfl, ?_, ?_⟩
  · show m₀.executor.pose.head = _ ∨ _
    rw [head]
    by_cases front : m.executor.pose.head = .front
    · exact .inl front.symm
    · exact .inr front
  · show m₀.executor.pose.direction = _ ∨ _ ∧ m₀.executor.pose.direction = none
    rw [direction]
    by_cases none : m.executor.pose.direction = none
    · exact .inl none.symm
    · exact .inr ⟨none, rfl⟩

end Restarts

end Machine

/-! ## A seek that is lost -/

deriving instance DecidableEq for Bounds
deriving instance DecidableEq for HeadDepths
deriving instance DecidableEq for TransferBox
deriving instance DecidableEq for Envelope
deriving instance DecidableEq for Rates
deriving instance DecidableEq for PlanContext
deriving instance DecidableEq for Location
deriving instance DecidableEq for PinTable
deriving instance DecidableEq for Gcode.Target
deriving instance DecidableEq for Gcode.Command
deriving instance DecidableEq for Gcode.Line
deriving instance DecidableEq for ApaRecord

namespace Bench

open Machine

/-- A move, a pause, and a seek along the move. -/
def seekText : String :=
  "(LAYER X)\nG1 X100 Y100\nM0\nG102 P1(top)\n" ++
    "(SHA256 43481107b4d9cf7a1373e685245a92b9dfa04d0f08f59cfa5acaef2dafcd8580)\n"

/-- A data directory with the recipe, and a calibration without pins. -/
def seekFiles : FileStore :=
  let directories := (FileStore.empty ["data", "recipes"]).put ["data", "calibration"] .directory
  (directories.putFile ["data", "recipes", "seek"] seekText.toUTF8).putFile
    ["data", "calibration", "X.xml"]
    "<LayerCalibration layer=\"X\" zFront=\"0\" zBack=\"0\"/>".toUTF8

/-- The machine that is made from files. -/
def made (files : FileStore) (status : ControllerStatus Float) : Option (Machine Float) :=
  (Machine.make .standard files ⟨"/data"⟩ ⟨.empty 8, status⟩ .epoch).1.toOption

/-- The recipe is wound up to the pause. -/
def seeking : List (Station.Event Plc Float) :=
  [.command (.load "seek" none), .dispatch, .command .start, .tick, .tick, .dispatch, .dispatch,
    .dispatch, .tick]

/-- The machine that stopped at the pause. -/
def parked : Option (Machine Float) := do
  let m ← made seekFiles .unknown
  let s : Station Plc Float := ⟨m, .make (.make 100) 1000, ⟨true, false⟩, 0⟩
  let (s, ()) ← s.performAll ⟨fun _ => (), fun _ _ _ => ()⟩ () seeking
  return s.machine

/-- The machine that is made from the files of another, where that stopped. -/
def replacement (m : Machine Float) : Option (Machine Float) :=
  made m.files { m.status with position := m.executor.pose.position }

/-- The serial number of a file. -/
def serial? : Node → Option Nat
  | .directory => none
  | .file _ serial => some serial

/-- The files of a machine hold its record, and what another machine loads the session from. -/
def Kept (m m₀ : Machine Float) (s : Session Float) : Prop :=
  (∃ text ∈ (m.files.readText "/data/APA/APA.xml").toOption,
    (ApaRecord.ofText text).toOption = some m.record) ∧
  (∃ recipe : Recipe Float, recipe ∈ (Recipe.load m.files "/data/recipes/seek").toOption ∧
    (s.path = some "/data/recipes/seek" ∧ s.layer = recipe.layer ∧ s.hash = recipe.hash ∧
      s.lines = recipe.lines ∧ recipe.pins = []) ∧
    ∃ layer ∈ m₀.executor.layers.find? (·.name == recipe.layer),
      (m₀.executor.library.get m.files recipe.layer).1.toOption = some s.table ∧
        (s.table.validate layer).toOption = some ()) ∧
  ∀ p ∈ ["/data/recipes/seek", m₀.executor.library.pathOf s.layer],
    ∀ n ∈ (m.files.find p).toOption, serial? n ≠ some m₀.journal.serial

instance (m m₀ : Machine Float) (s : Session Float) : Decidable (Kept m m₀ s) :=
  inferInstanceAs (Decidable (_ ∧ _))

/-- A restart at the pause, and the plans for the seek before and after it. -/
theorem parked_settled :
    ∃ m ∈ parked, ∃ m₀ ∈ replacement m, ∃ s ∈ m.executor.session,
      (m.mode = .stop ∧ m.queue.entries = [] ∧ m.executor.inFlight = [] ∧
        m.executor.state = .idle ∧ m.executor.context = m₀.executor.context ∧
        m.record.recipe = some "/data/recipes/seek" ∧ m.record.line = some s.cursor ∧
        s.cursor = 2 ∧ s.cursor ≤ s.lines.length) ∧
      Kept m m₀ s ∧ m.status.responsive = true ∧
      (m.executor.sequel? 2).isSome ∧
      s.fromCursor.plan? m.executor.context
        { m₀.executor.pose with position := m.executor.pose.position } 2 = none := by
  decide +kernel

/-- The restart of the machine that stopped at the pause. -/
theorem parked_restarts : ∃ (m m₀ : Machine Float) (s : Session Float),
    parked = some m ∧ Restarts .standard ⟨"/data"⟩ m m₀ s "/data/recipes/seek" ∧ s.cursor = 2 ∧
      (m.executor.sequel? 2).isSome ∧
      s.fromCursor.plan? m.executor.context
        { m₀.executor.pose with position := m.executor.pose.position } 2 = none := by
  obtain ⟨m, stopped, m₀, replaced, s, session, ⟨mode, queue, inFlight, idle, context, recipe, line,
    cursor, le⟩, ⟨⟨text, read, written⟩, ⟨r, loaded, ⟨named, layer, hash, lines, pins⟩, l, found,
    table, valid⟩, apart⟩, responsive, seek, lost⟩ := parked_settled
  rcases made : Machine.make .standard m.files ⟨"/data"⟩
    ⟨.empty 8, { m.status with position := m.executor.pose.position }⟩ .epoch with ⟨r₀, files⟩
  have made₀ : r₀ = .ok m₀ := by
    refine eq_ok_of_toOption ?_
    rw [← replaced, replacement, Bench.made, made]
  subst made₀
  have status : m₀.status = { m.status with position := m.executor.pose.position } := by
    obtain ⟨x, records, journal, -, -, -, rfl⟩ := Machine.make_eq_ok made
    rfl
  refine ⟨m, m₀, s, stopped, ?_, cursor, seek, lost⟩
  exact
    { stopped := mode
      drained := queue
      rest := ⟨session, le, inFlight, by rw [idle]; nofun⟩
      saved := ⟨text, eq_ok_of_toOption read, eq_ok_of_toOption written⟩
      recipe := recipe
      line := line
      made := ⟨_, _, _, made, rfl⟩
      context := context
      loaded := ⟨r, l, eq_ok_of_toOption loaded, named, ⟨layer, hash, lines⟩, found,
        eq_ok_of_toOption table, eq_ok_of_toOption valid, by rw [pins]; rfl⟩
      apart := fun p hp content serial found same =>
        apart p hp (.file content serial) (by rw [found]; rfl) (congrArg some same)
      responsive := by rw [status]; exact responsive
      position := by rw [status] }

end Bench

end Winding

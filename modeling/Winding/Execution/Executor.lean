import Winding.Calibration.Library
import Winding.Execution.Session

/-!
# Executing recipes

The executor owns the loaded recipe and the planned pose. Each step plans the line under the cursor
and queues all of its primitives or none (`Executor.step`). Lines whose primitives are still queued
are kept in flight, so that a fault can rewind to the first line whose motion did not finish
(`Executor.fault`).
-/

namespace Winding

/-- Execution of recipes and of single manual moves. -/
structure Executor (R : Type) where
  context : PlanContext R
  layers : List (Layer R)
  library : CalibrationLibrary R
  session : Option (Session R)
  /-- Where the machine will be once everything queued has run. -/
  pose : Pose R
  state : ExecutorState
  /-- Wire of all lines planned in this session. -/
  wire : R
  /-- Time spent on this session. -/
  windMillis : Nat
  /-- Lines planned in this session. -/
  emitted : Nat
  /-- Planned lines that may not have run to their end, oldest first. -/
  inFlight : List (InFlight R)
deriving Repr

namespace Executor

variable {R : Type} [Scalar R]

/-- An executor without a recipe. -/
def make (context : PlanContext R) (layers : List (Layer R)) (library : CalibrationLibrary R) :
    Executor R :=
  ⟨context, layers, library, none, .initial (context.rates.limits none), .idle, Scalar.zero, 0, 0,
    []⟩

/-- Refuses while primitives of the recipe may be on their way. -/
def unlessRunning {α : Type} (x : Executor R) (rest : Except (ExecutorError R) α) :
    Except (ExecutorError R) α :=
  if x.state.isRunning then .error (.busy x.state) else rest

/-! ## Sessions -/

/-- Checks a recipe against the layout and the calibration of its layer. -/
def qualify (layer : Layer R) (table : PinTable R) (recipe : Recipe R) (start : Nat) :
    Except (ExecutorError R) Unit :=
  match table.validate layer with
  | .error e => .error (.plan (.calibration e))
  | .ok () =>
    match recipe.pins.find? (!table.contains ·) with
    | some pin => .error (.plan (.calibration (.unknownPin pin)))
    | none =>
      if recipe.lines.length < start then .error (.lineOutOfRange start recipe.lines.length)
      else .ok ()

/-- The executor at the start of a session. -/
def begin (x : Executor R) (session : Session R) : Executor R :=
  { x with
    session := some session
    state := .ready
    wire := Scalar.zero
    windMillis := 0
    emitted := 0
    inFlight := [] }

/-- Installs a recipe, positioned at a line. Every pin it needs must be calibrated; after a failure
the session is the old one, and only a calibration that was read is kept. -/
def install (x : Executor R) (files : FileStore) (path : Option String) (recipe : Recipe R)
    (start : Nat) : Except (ExecutorError R) Unit × Executor R :=
  if x.state.isRunning then (.error (.busy x.state), x)
  else match x.layers.find? (·.name == recipe.layer) with
    | none => (.error (.unknownLayer recipe.layer), x)
    | some layer =>
      let (found, library) := x.library.get files recipe.layer
      let x := { x with library := library }
      match found with
      | .error e => (.error (.plan (.calibration e)), x)
      | .ok table =>
        match qualify layer table recipe start with
        | .error e => (.error e, x)
        | .ok () =>
          (.ok (), x.begin ⟨path, recipe.layer, recipe.hash, recipe.lines, start, start, table⟩)

/-- Loads a recipe file, positioned at a line. -/
def load (x : Executor R) (files : FileStore) (path : String) (start : Nat) :
    Except (ExecutorError R) Unit × Executor R :=
  if x.state.isRunning then (.error (.busy x.state), x)
  else match Recipe.load files path with
    | .error e => (.error (.recipe e), x)
    | .ok recipe => x.install files (some path) recipe start

/-- Forgets the session. -/
def unload (x : Executor R) : Except (ExecutorError R) (Executor R) :=
  x.unlessRunning (.ok { x with session := none, state := .idle, inFlight := [] })

/-! ## Steps -/

/-- The executor after the line under the cursor was queued. A line without primitives is done at
once and is not in flight. -/
def advance (x : Executor R) (s : Session R) (plan : LinePlan R) : Executor R :=
  { x with
    session := some { s with cursor := s.cursor + 1 }
    pose := plan.pose
    state :=
      if plan.pauses then .stopping
      else if s.lines.length ≤ s.cursor + 1 then .done
      else .emitting
    wire := x.wire + plan.wire
    emitted := x.emitted + 1
    inFlight :=
      if plan.primitives.isEmpty then x.inFlight
      else x.inFlight ++ [⟨s.cursor, plan.wire, x.pose⟩] }

/-- Queues the plan for the line under the cursor. -/
def emit (x : Executor R) (q : Queue R) (s : Session R) (plan : LinePlan R) :
    Except (ExecutorError R) StepOutcome × Executor R × Queue R :=
  if q.capacity < plan.primitives.length then
    (.error (.lineTooLong s.cursor plan.primitives.length q.capacity),
      { x with state := .faulted }, q)
  else match q.pushAll (some s.cursor) plan.primitives with
    | .error _ => (.ok (.blocked .queueFull), { x with state := .blocked }, q)
    | .ok q' => (.ok (if plan.pauses then .pause else .advanced), x.advance s plan, q')

/-- Plans the line under the cursor and queues its primitives. -/
def stepLine (x : Executor R) (q : Queue R) (s : Session R) :
    Except (ExecutorError R) StepOutcome × Executor R × Queue R :=
  match s.lines[s.cursor]? with
  | none => (.ok .finished, { x with state := .done }, q)
  | some line =>
    if !q.ready then (.ok (.blocked .controllerNotReady), { x with state := .blocked }, q)
    else match planLine x.context (some s.table) x.pose line with
      | .error e => (.error (.plan e), { x with state := .faulted }, q)
      | .ok plan => x.emit q s plan

/-- One step of execution. -/
def step (x : Executor R) (q : Queue R) :
    Except (ExecutorError R) StepOutcome × Executor R × Queue R :=
  match x.state with
  | .done => (.ok .finished, x, q)
  | .stopping => (.ok (.blocked .stopping), x, q)
  | .faulted => (.error .faulted, x, q)
  | .idle =>
    (.error (if x.session.isSome then .invalidTransition .idle .step else .plan .noRecipe), x, q)
  | .ready | .emitting | .blocked =>
    match x.session with
    | none => (.error (.plan .noRecipe), x, q)
    | some s => x.stepLine q s

/-! ## Progress -/

/-- Forgets the lines in flight whose primitives have all left the queue. -/
def settle (x : Executor R) (q : Queue R) : Executor R :=
  { x with inFlight := x.inFlight.dropWhile fun l => !q.oldestLine?.any (· ≤ l.index) }

/-- Wire of the lines whose motion has run. -/
def committedWire (x : Executor R) : R := x.wire - Scalar.sum (x.inFlight.map InFlight.wire)

/-- The next line to plan. -/
def line? (x : Executor R) : Option Nat := x.session.map Session.cursor

/-- The first line that has not run to its end. -/
def committedLine? (x : Executor R) : Option Nat :=
  x.session.map fun s => (x.inFlight.head?.map InFlight.index).getD s.cursor

/-- Lines of the recipe. -/
def lineCount (x : Executor R) : Nat := (x.session.map (·.lines.length)).getD 0

/-! ## Faults -/

/-- Takes back a planned line. -/
def takeBack (x : Executor R) (l : InFlight R) : Executor R :=
  { x with wire := x.wire - l.wire, emitted := x.emitted - 1, pose := l.before }

/-- The line to which a fault rewinds: the one given, or the oldest in flight, or the cursor. -/
def rewindLine? (x : Executor R) (unfinished : Option Nat) : Option Nat :=
  unfinished <|> x.inFlight.head?.map InFlight.index <|> x.line?

/-- Takes back the lines in flight from a line on, newest first, and moves the cursor back to it. -/
def rewind (x : Executor R) (line : Nat) : Executor R :=
  let x := (x.inFlight.reverse.takeWhile fun l => line ≤ l.index).foldl takeBack x
  { x with session := x.session.map fun s => { s with cursor := min line s.cursor } }

/-- The controller failed: rewinds to the first unfinished line. -/
def fault (x : Executor R) (unfinished : Option Nat) : Executor R :=
  let x := match x.rewindLine? unfinished with
    | some line => x.rewind line
    | none => x
  { x with inFlight := [], state := .faulted }

/-- Leaves the faulted state. -/
def clearFault (x : Executor R) : Except (ExecutorError R) (Executor R) :=
  if x.state = .faulted then
    .ok { x with state := if x.session.isSome then .ready else .idle }
  else .error (.invalidTransition x.state .clearFault)

/-! ## Stopping and resuming -/

/-- Asks for no further lines. -/
def requestStop (x : Executor R) : Executor R :=
  match x.state with
  | .ready | .emitting | .blocked | .done => { x with state := .stopping }
  | .idle | .faulted | .stopping => x

/-- Ends a stop once the queue is empty; says whether nothing is on its way. -/
def drain (x : Executor R) (queueEmpty : Bool) : Bool × Executor R :=
  let x :=
    if x.state = .stopping ∧ queueEmpty then
      let finished := x.session.any fun s => s.lines.length ≤ s.cursor
      { x with inFlight := [], state := if finished then .done else .idle }
    else x
  (!x.state.isRunning, x)

/-- Readies a stopped or faulted session. -/
def arm (x : Executor R) : Except (ExecutorError R) (Executor R) :=
  match x.state with
  | .ready | .emitting | .blocked => .ok x
  | .idle => if x.session.isSome then .ok { x with state := .ready } else .error (.plan .noRecipe)
  | .faulted => x.clearFault
  | .stopping => .error (.busy .stopping)
  | .done => .error (.invalidTransition .done .arm)

/-- Moves the cursor. -/
def setLine (x : Executor R) (line : Nat) : Except (ExecutorError R) (Executor R) :=
  x.unlessRunning <|
    match x.session with
    | none => .error (.plan .noRecipe)
    | some s =>
      if s.lines.length < line then .error (.lineOutOfRange line s.lines.length)
      else .ok { x with
        session := some { s with cursor := line }
        inFlight := []
        state := if x.state = .done ∧ line < s.lines.length then .ready else x.state }

/-- Counts time spent on the session. -/
def spend (x : Executor R) (ms : Nat) : Executor R := { x with windMillis := x.windMillis + ms }

/-- Takes a reported position as the planned one, unless a recipe is running. -/
def syncPosition (x : Executor R) (position : Location R) : Executor R :=
  if x.state.isRunning then x else { x with pose := { x.pose with position := position } }

/-! ## Manual motion -/

/-- Queues a primitive outside any recipe; the pose after it is adopted with it. -/
def queueManual (x : Executor R) (q : Queue R) (pose : Pose R) (p : Primitive R) :
    Except (ExecutorError R) (Primitive R × Executor R × Queue R) :=
  match q.push none p with
  | .error e => .error (.queueFull e)
  | .ok q' => .ok (p, { x with pose := pose }, q')

/-- The pose after travel outside any recipe. -/
def manualTravel (x : Executor R) (target : Location R) : Except (ExecutorError R) (Pose R) :=
  (x.pose.travel x.context.envelope target).mapError .plan

/-- Moves to a point. The requested velocity is checked before it is capped. -/
def jog (x : Executor R) (q : Queue R) (target : Location R) (velocity : Option R) :
    Except (ExecutorError R) (Primitive R × Executor R × Queue R) :=
  x.unlessRunning <|
    let limits := x.context.rates.limits velocity
    let requested := velocity.getD limits.velocity
    if !(Rates.usable requested && limits.isValid) then .error (.plan (.invalidLimits requested))
    else do
      let pose ← x.manualTravel target
      x.queueManual q { pose with limits := limits } (.move target limits)

/-- Moves the head to a side. -/
def moveHead (x : Executor R) (q : Queue R) (side : Side) :
    Except (ExecutorError R) (Primitive R × Executor R × Queue R) :=
  x.unlessRunning do
    let (z, _) ← (x.pose.headChange x.context.envelope side).mapError .plan
    x.queueManual q (x.pose.withHead side z) (.head side z)

/-- Moves the latch to a side. -/
def moveLatch (x : Executor R) (q : Queue R) (side : Side) :
    Except (ExecutorError R) (Primitive R × Executor R × Queue R) :=
  x.unlessRunning (x.queueManual q { x.pose with latch := side } (.latch side))

/-- Moves to a pin of the session's layer. -/
def seekPin (x : Executor R) (q : Queue R) (pin : Pin) :
    Except (ExecutorError R) (Primitive R × Executor R × Queue R) :=
  x.unlessRunning <|
    match x.session with
    | none => .error (.plan .noRecipe)
    | some s => do
      let target ← (s.table.resolve pin).mapError fun e => .plan (.calibration e)
      let pose ← x.manualTravel target
      x.queueManual q { pose with activePin := some pin }
        (.move target (x.context.rates.limits none))

end Executor

end Winding

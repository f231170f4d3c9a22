import Winding.Proofs.Station.Conservation

/-!
# At rest, nothing is on its way

Only winding leaves primitives of a recipe on their way (`Machine.AtRest`). Each period in which
winding ends leaves an executor at rest, whether it ends with a fault, drained or with the recipe.
In every run a stopped machine has therefore nothing queued and nothing running, manual motion and
visits to pins queue nothing of a recipe, and all that is queued in winding belongs to lines of the
session before its cursor (`Station.Run.quiescent`).
-/

namespace Winding

variable {σ R : Type} [Scalar R]

/-! ## Entries of recipes -/

namespace Queue

omit [Scalar R]

/-- Every entry belongs to a line of a recipe. -/
def Claimed (q : Queue R) : Prop := ∀ e ∈ q.entries, e.line.isSome

theorem line_of_mem_number {seq : Nat} {line : Option Nat} {ps : List (Primitive R)}
    {e : QueueEntry R} (h : e ∈ number seq line ps) : e.line = line := by
  induction ps generalizing seq with
  | nil => cases h
  | cons p ps ih =>
    rcases List.mem_cons.mp h with rfl | h
    · rfl
    · exact ih h

variable {q q' : Queue R}

theorem Claimed.of_empty (h : q.entries = []) : q.Claimed := by
  rw [Claimed, h]
  exact List.forall_mem_nil _

theorem Claimed.retires (h : q.Claimed) (hq : q.Retires q') : q'.Claimed := by
  obtain ⟨k, -, entries, -⟩ := hq
  intro e he
  rw [entries] at he
  exact h e (List.mem_of_mem_drop he)

theorem Claimed.pushAll (h : q.Claimed) {i : Nat} {ps : List (Primitive R)}
    (pushed : q.pushAll (some i) ps = .ok q') : q'.Claimed := by
  rw [pushAll_eq_ok pushed]
  intro e he
  rcases List.mem_append.mp he with he | he
  · exact h e he
  · rw [line_of_mem_number he]
    rfl

end Queue

/-- A move of a course queues only lines of the recipe. -/
theorem Course.claimed_after {c : Course R} (h : c.queue.Claimed) (m : Move) :
    (c.after m).queue.Claimed := by
  rcases m.kinds with rfl | ⟨seq, rfl⟩ | rfl | quiet
  · rcases c.step_cases with ⟨s, plan, q, -, -, -, pushed, -, e⟩ | ⟨-, -, same⟩
    · rw [e]
      exact h.pushAll pushed
    · rwa [same]
  · exact h.retires (.complete c.queue seq)
  · exact .of_empty rfl
  · rw [Queue.Claimed, (c.after_quiet quiet).entries]
    exact h

theorem Course.claimed_run {c : Course R} (h : c.queue.Claimed) (ms : List Move) :
    (c.run ms).queue.Claimed := by
  induction ms generalizing c with
  | nil => exact h
  | cons m ms ih => exact ih (c.claimed_after h m)

/-! ## The end of winding -/

omit [Scalar R] in
/-- Arming does not set anything on its way. -/
theorem Executor.arm_rests {x y : Executor R} (rests : x.state.isRunning = false)
    (armed : x.arm = .ok y) : y.state.isRunning = false := by
  unfold arm at armed
  split at armed
  · cases armed
    exact rests
  · cases armed
    exact rests
  · cases armed
    exact rests
  · split at armed
    · cases armed
      rfl
    · cases armed
  · next faulted =>
    rw [clearFault, if_pos faulted] at armed
    cases armed
    cases x.session <;> rfl
  · cases armed
  · cases armed

namespace Machine

variable {m m' : Machine R}

theorem fault_rests {kind message : String} (h : m.fault kind message = (.ok (), m')) :
    m'.mode = m.mode ∧ m'.executor.state = .faulted := by
  obtain ⟨records, files, rfl, -⟩ := fault_eq_ok h
  exact ⟨rfl, rfl⟩

theorem finishRecipe_rests (h : m.finishRecipe = (.ok (), m')) :
    m'.mode = m.mode ∧ m'.executor.state = .idle := by
  obtain ⟨records, files, r, rfl, -⟩ := finishRecipe_eq_ok h
  exact ⟨rfl, rfl⟩

/-- The work of winding asks to go on, or to stop with an executor at rest. -/
structure EndsAtRest (m : Machine R) (next : Option Mode) (m₁ : Machine R) : Prop where
  mode : m₁.mode = m.mode
  rests : next = none ∨ next = some .stop ∧ m₁.executor.state.isRunning = false

section

variable {next : Option Mode} {m₁ : Machine R}

theorem ends_of_fault {kind message : String} (mode : m'.mode = m.mode)
    (h : (m'.fault kind message).as (some .stop) = (.ok next, m₁)) : m.EndsAtRest next m₁ := by
  obtain ⟨_, failed, rfl⟩ := Outcome.as_eq_ok h
  obtain ⟨same, state⟩ := fault_rests failed
  exact ⟨same.trans mode, .inr ⟨rfl, by rw [state]; rfl⟩⟩

theorem ends_of_finishRecipe (mode : m'.mode = m.mode)
    (h : m'.finishRecipe.as (some .stop) = (.ok next, m₁)) : m.EndsAtRest next m₁ := by
  obtain ⟨_, finished, rfl⟩ := Outcome.as_eq_ok h
  obtain ⟨same, state⟩ := finishRecipe_rests finished
  exact ⟨same.trans mode, .inr ⟨rfl, by rw [state]; rfl⟩⟩

theorem ends_of_syncProgress (mode : m'.mode = m.mode)
    (h : m'.syncProgress.as none = (.ok next, m₁)) : m.EndsAtRest next m₁ := by
  obtain ⟨_, synced, rfl⟩ := Outcome.as_eq_ok h
  obtain ⟨records, files, rfl, -⟩ := syncProgress_eq_ok synced
  exact ⟨mode, .inl rfl⟩

theorem windOn_rests (h : m.windOn = (.ok next, m₁)) : m.EndsAtRest next m₁ := by
  obtain ⟨records, files, planned, -⟩ := m.plan_noted m.queue.capacity
  have mode : (m.plan m.queue.capacity).2.mode = m.mode := by
    rw [planned]
    rfl
  unfold windOn at h
  rcases hp : m.plan m.queue.capacity with ⟨_ | e, m₂⟩
  · rw [hp] at h mode
    exact ends_of_syncProgress mode h
  · rw [hp] at h mode
    exact ends_of_fault mode h

theorem windDown_rests (h : m.windDown = (.ok next, m₁)) : m.EndsAtRest next m₁ := by
  have drained : (m.executor.drain m.queue.isEmpty).1 =
      !(m.executor.drain m.queue.isEmpty).2.state.isRunning := rfl
  simp only [windDown, drained] at h
  split at h
  · exact ends_of_syncProgress (by rfl) h
  · next still =>
    have still : (m.executor.drain m.queue.isEmpty).2.state.isRunning = false := by
      simpa using still
    split at h
    · exact ends_of_finishRecipe (by rfl) h
    · obtain ⟨_, m₂, synced, h⟩ := Outcome.andThen_eq_ok h
      obtain ⟨records, files, rfl, -⟩ := syncProgress_eq_ok synced
      cases h
      exact ⟨rfl, .inr ⟨rfl, still⟩⟩

theorem updateWind_rests (h : m.updateWind = (.ok next, m₁)) : m.EndsAtRest next m₁ := by
  suffices m.opened.EndsAtRest next m₁ from ⟨this.mode, this.rests⟩
  rw [updateWind_eq] at h
  split at h
  · exact ends_of_fault rfl h
  · split at h
    · exact windDown_rests h
    · split at h
      · exact ends_of_finishRecipe rfl h
      · exact ends_of_syncProgress rfl h
    · next idle =>
      cases h
      exact ⟨rfl, .inr ⟨rfl, by rw [idle]; rfl⟩⟩
    all_goals exact windOn_rests h

end

/-- Winding ends with an executor at rest. -/
theorem tick_wind_rests (mode : m.mode = .wind) (ticked : m.tick = (.ok (), m'))
    (left : m'.mode ≠ .wind) : m'.executor.state.isRunning = false := by
  obtain ⟨next, m₁, updated, goes⟩ := tick_eq_ok ticked
  have update : m.update = m.updateWind := by rw [update, mode]
  rw [update] at updated
  obtain ⟨same, rfl | ⟨rfl, rests⟩⟩ := updateWind_rests updated
  · obtain rfl : m' = _ := goes
    exact absurd (same.trans mode) left
  · obtain ⟨records, files, rfl, -⟩ := transition_of_wind goes (same.trans mode)
    exact rests

/-! ## The machine at rest -/

omit [Scalar R] in
/-- Only winding has primitives of a recipe on their way, and it has nothing else queued. -/
structure AtRest (m : Machine R) : Prop where
  rests : m.mode ≠ .wind → m.executor.state.isRunning = false
  claimed : m.mode = .wind → m.queue.Claimed

namespace AtRest

omit [Scalar R] in
theorem of_rests (mode : m.mode ≠ .wind) (rests : m.executor.state.isRunning = false) : m.AtRest :=
  ⟨fun _ => rests, fun wind => absurd wind mode⟩

theorem tick_stop (h : m.AtRest) (empty : m.queue.entries = []) (mode : m.mode = .stop)
    (ticked : m.tick = (.ok (), m')) : m'.AtRest := by
  have rests : m.executor.state.isRunning = false := h.rests (by rw [mode]; decide)
  have stopped : m.mode ≠ .wind := by rw [mode]; decide
  rcases Machine.tick_stop mode ticked with
    - | ⟨-, -, noted⟩ | ⟨pin, -, -, -, noted⟩ | ⟨-, -, -, -, noted⟩ | -
  · exact .of_rests stopped rests
  · obtain ⟨records, files, rfl, -⟩ := noted
    unfold enterWind
    -- winding begins with the empty queue of the stopped machine
    split <;> exact ⟨fun other => absurd rfl other, fun _ => .of_empty empty⟩
  · obtain ⟨records, files, rfl, -⟩ := noted
    exact .of_rests nofun rests
  · obtain ⟨records, files, rfl, -⟩ := noted
    exact .of_rests nofun rests
  · exact .of_rests stopped rests

omit [Scalar R] in
/-- A fault outside winding leaves the executor at rest. -/
theorem motionFaulted (rests : m.executor.state.isRunning = false) (message : String) :
    (m.motionFaulted message).executor.state.isRunning = false := by
  have same := (m.executor.syncPosition_fields m.status.position).2.2
  exact (congrArg ExecutorState.isRunning same).trans rests

theorem pushes {x : Executor R} {q : Queue R} (rests : m.executor.state.isRunning = false)
    (pushes : m.executor.Pushes m.queue x q) : x.state.isRunning = false := by
  obtain ⟨pose, p, -, rfl⟩ := pushes
  exact rests

theorem tick_manual (h : m.AtRest) (mode : m.mode = .manual) (ticked : m.tick = (.ok (), m')) :
    m'.AtRest := by
  have manual : m.mode ≠ .wind := by rw [mode]; decide
  have rests := h.rests manual
  rcases Machine.tick_manual mode ticked with
    ⟨reason, -, noted⟩ | ⟨-, -⟩ | ⟨-, -, pushed⟩ | ⟨message, -, -, noted⟩ | - | ⟨-, -, noted⟩
  · obtain ⟨records, files, rfl, -⟩ := noted
    exact .of_rests nofun (motionFaulted rests reason)
  · exact h
  · exact .of_rests manual (pushes rests pushed)
  · obtain ⟨records, files, rfl, -⟩ := noted
    exact .of_rests manual rests
  · exact .of_rests manual rests
  · obtain ⟨records, files, rfl, -⟩ := noted
    exact .of_rests nofun rests

theorem tick_calibration (h : m.AtRest) (mode : m.mode = .calibration)
    (ticked : m.tick = (.ok (), m')) : m'.AtRest := by
  have visiting : m.mode ≠ .wind := by rw [mode]; decide
  have rests := h.rests visiting
  rcases Machine.tick_calibration mode ticked with
    ⟨reason, -, noted⟩ | ⟨error, -, noted⟩ | - | ⟨-, -, pushed⟩
  · obtain ⟨records, files, rfl, -⟩ := noted
    exact .of_rests nofun (motionFaulted rests reason)
  · obtain ⟨records, files, rfl, -⟩ := noted
    exact .of_rests nofun rests
  · exact h
  · exact .of_rests visiting (pushes rests pushed)

theorem tick_wind (h : m.AtRest) (active : m.executor.state ≠ .idle) (mode : m.mode = .wind)
    (ticked : m.tick = (.ok (), m')) : m'.AtRest := by
  refine ⟨tick_wind_rests mode ticked, fun wind => ?_⟩
  rcases Machine.tick_wind mode ticked with
    ⟨-, records, files, rfl, -⟩ | ⟨error, -, records, files, rfl, -⟩ |
    ⟨-, -, -, records, files, -, rfl, -⟩ | idle
  · exact Course.claimed_run (c := m.course) (h.claimed mode) m.windMoves
  · cases wind
  · cases wind
  · exact absurd idle active

/-- A period leaves nothing on its way outside winding. -/
theorem tick (h : m.AtRest) (orderly : m.Orderly) (ticked : m.tick = (.ok (), m')) :
    m'.AtRest := by
  rcases mode : m.mode with _ | _ | _ | _
  · exact h.tick_stop (orderly.stop mode) mode ticked
  · exact h.tick_manual mode ticked
  · exact h.tick_wind (orderly.wind mode).2 mode ticked
  · exact h.tick_calibration mode ticked

/-- A command leaves nothing on its way: a session is only readied. -/
theorem handle {c : Operator.Command R} (h : m.AtRest) (handled : m.Handled c m') :
    m'.AtRest := by
  rcases handled with
    - | - | ⟨-, mode, -, armed⟩ | - | - | - | ⟨library, -, -, noted⟩ |
    ⟨library, path, mode, -, -, -, noted⟩
  · exact h
  · exact ⟨h.rests, h.claimed⟩
  · have stopped : m.mode ≠ .wind := by rw [mode]; decide
    exact .of_rests stopped (Executor.arm_rests (h.rests stopped) armed)
  · exact ⟨h.rests, h.claimed⟩
  · exact ⟨h.rests, h.claimed⟩
  · exact ⟨h.rests, h.claimed⟩
  · obtain ⟨records, files, rfl, -⟩ := noted
    exact ⟨h.rests, h.claimed⟩
  · obtain ⟨records, files, rfl, -⟩ := noted
    exact .of_rests (fun wind => nomatch mode.symm.trans wind) rfl

end AtRest

end Machine

/-! ## Runs -/

/-- The machine of a station was just made, with an idle executor, or has booted after that. -/
def Station.Opens (s : Station σ R) : Prop :=
  ∃ m : Machine R, m.IsFresh ∧ m.executor.state = .idle ∧
    (s.machine = m ∨ m.boot = (.ok (), s.machine))

namespace Station

variable {s₀ s s' : Station σ R}

theorem Opens.begins (h : s.Opens) : s.Begins := by
  obtain ⟨m, fresh, -, boots⟩ := h
  exact ⟨m, fresh, boots⟩

/-- A station that starts opens a run. -/
theorem start_opens [Adapter σ] {c : Configuration R} {files files' : FileStore}
    {d : DataDirectory} {plc : σ} {clock : Nat} {now : Timestamp}
    (h : Station.start c files d plc clock now = (.ok s, files')) : s.Opens := by
  obtain ⟨_, _, _, _, _, _, m, -, -, made, booted, -⟩ := start_eq_ok h
  obtain ⟨fresh, idle⟩ := Machine.make_fresh made rfl
  exact ⟨m, fresh, idle, .inr booted⟩

theorem Opens.atRest (h : s.Opens) : s.machine.AtRest := by
  have mode : s.machine.mode ≠ .wind := by
    rw [h.begins.atStart.mode]
    decide
  refine .of_rests mode ?_
  obtain ⟨m, fresh, idle, e | booted⟩ := h
  · rw [e, idle]
    rfl
  · rcases Machine.boot_eq_ok booted with ⟨x, error, ⟨-, state⟩, records, files, e, -⟩ |
      ⟨x, sess, -, -, -, -, records, files, e, -⟩
    · rw [e]
      exact congrArg ExecutorState.isRunning (state.trans idle)
    · rw [e]
      rfl

variable [Adapter σ] {α : Type} {o : Observer σ R α} {a : α}

/-- An event leaves nothing on its way outside winding. -/
theorem perform_atRest {e : Event σ R} (h : s.machine.AtRest) (orderly : s.machine.Orderly)
    (step : s.perform e = (.ok (), s')) : s'.machine.AtRest := by
  cases e with
  | command c => exact h.handle (command_eq_ok step)
  | dispatch =>
    cases step
    exact ⟨h.rests, fun mode => (h.claimed mode).retires s.dispatch_retires⟩
  | tick => exact h.tick orderly (tick_eq_ok step)
  | world plc files clock now =>
    cases step
    exact ⟨h.rests, h.claimed⟩

theorem Run.atRest (opens : s₀.Opens) (run : Run o s₀ s a) : s.machine.AtRest := by
  induction run with
  | start => exact opens.atRest
  | next run step ih => exact perform_atRest ih (run.orderly opens.begins) step

end Station

/-! ## Quiescence -/

omit [Scalar R] in
/-- What is queued and what runs fits the mode. -/
structure Machine.Quiescent (m : Machine R) : Prop where
  stop : m.mode = .stop → m.queue.entries = [] ∧ m.executor.state.isRunning = false
  motion : m.mode = .manual ∨ m.mode = .calibration →
    (∀ e ∈ m.queue.entries, e.line = none) ∧ m.executor.state.isRunning = false
  wind : m.mode = .wind → ∃ s, m.executor.session = some s ∧ s.cursor ≤ s.lines.length ∧
    ∀ e ∈ m.queue.entries, ∃ i, e.line = some i ∧ s.start ≤ i ∧ i < s.cursor

namespace Station

variable [Adapter σ] {s₀ s : Station σ R} {α : Type} {o : Observer σ R α} {a : α}

/-- While the machine is stopped, nothing is queued and nothing runs. In manual motion and in a visit
to a pin nothing of a recipe is queued, and nothing runs. All that is queued in winding belongs to
lines of the session before its cursor. -/
theorem Run.quiescent (opens : s₀.Opens) (run : Run o s₀ s a) : s.machine.Quiescent := by
  have orderly := run.orderly opens.begins
  have atRest := run.atRest opens
  refine ⟨fun mode => ⟨orderly.stop mode, atRest.rests (by rw [mode]; decide)⟩, fun mode => ?_,
    fun mode => ?_⟩
  · have other : s.machine.mode ≠ .wind := by rcases mode with h | h <;> rw [h] <;> decide
    exact ⟨Queue.motion_eq_nil_iff.mp (orderly.motion other), atRest.rests other⟩
  · obtain ⟨sess, session⟩ := Option.isSome_iff_exists.mp (orderly.wind mode).1
    -- the account of the run ties what is queued to the lines that the session has planned
    obtain ⟨account, run'⟩ := run.observed accounts
    have coherent := (run'.kept opens.begins sess session).coherent
    refine ⟨sess, session, coherent.cursor_le, fun e he => ?_⟩
    obtain ⟨i, line⟩ := Option.isSome_iff_exists.mp (atRest.claimed mode e he)
    have queued : (i, e.primitive) ∈ Queue.motion s.machine.course.queue.entries :=
      List.mem_filterMap.mpr ⟨e, he, by rw [QueueEntry.motion?, line]; rfl⟩
    obtain ⟨l, inFlight, rfl⟩ := List.mem_map.mp (coherent.queued _ queued)
    exact ⟨l.index, line, coherent.bounds l inFlight⟩

theorem bench_opens : Bench.station.Opens :=
  ⟨Bench.machine, ⟨rfl, rfl, rfl, rfl, rfl, rfl, rfl⟩, rfl, .inl rfl⟩

/-- On the bench, the move of the first line and the pause after it are queued before the cursor. -/
theorem bench_quiescent :
    ∃ (s : Station Bench.Plc Whole) (a : Account Whole), Run accounts Bench.station s a ∧
      s.machine.mode = .wind ∧ s.machine.queue.entries.map QueueEntry.line = [some 0, some 0] ∧
      s.machine.executor.line? = some 1 ∧ s.machine.Quiescent := by
  have reached : (Bench.station.performAll accounts (accounts.initial Bench.station)
      (Bench.winding.take 5)).any (fun (s, _) => s.machine.mode = .wind ∧
        s.machine.queue.entries.map QueueEntry.line = [some 0, some 0] ∧
        s.machine.executor.line? = some 1) = true := by
    decide +kernel
  obtain ⟨⟨s, a⟩, performed, facts⟩ := (Option.any_eq_true ..).mp reached
  obtain ⟨mode, lines, cursor⟩ := of_decide_eq_true facts
  have run := Run.start.performAll performed
  exact ⟨s, a, run, mode, lines, cursor, run.quiescent bench_opens⟩

end Station

end Winding

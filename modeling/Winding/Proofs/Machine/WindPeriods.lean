import Winding.Proofs.Execution.Course
import Winding.Proofs.Machine.Periods

/-!
# Periods of winding

A period of winding is a list of moves on the executor and its queue (`Machine.windMoves`). Up to
what is filed, the machine after it is the machine after these moves: it winds on, it stops with an
empty queue, or the recipe is finished and forgotten (`Machine.WindPeriod`).
-/

namespace Winding

variable {R : Type} [Scalar R]

namespace Course

/-- A session is being wound. -/
def IsActive (c : Course R) : Prop :=
  c.executor.session.isSome ∧ c.executor.state ≠ .idle

theorem step_active {c : Course R} (h : c.IsActive) : (c.after .step).IsActive := by
  have stepped := c.executor.step_stepped c.queue
  simp only [after]
  generalize c.executor.step c.queue = r at stepped ⊢
  rcases stepped with - | - | - | - | - | ⟨e, idle⟩
  · refine ⟨rfl, ?_⟩
    simp only [Executor.advance]
    split
    · simp
    · split <;> simp
  · exact ⟨h.1, by simp⟩
  · exact ⟨h.1, by simp⟩
  · exact h
  · exact ⟨h.1, by simp⟩
  · exact h

/-- Only a stop that has drained and a fault end winding. -/
theorem after_active {c : Course R} (h : c.IsActive) {m : Move} (drain : m ≠ .drain)
    (fault : m ≠ .fault) : (c.after m).IsActive := by
  obtain ⟨loaded, state⟩ := h
  have cleared : (c.after .clearFault).IsActive := by
    simp only [after, Executor.clearFault]
    split
    · exact ⟨loaded, by simp [Except.toOption]⟩
    · exact ⟨loaded, state⟩
  cases m with
  | step => exact step_active ⟨loaded, state⟩
  | complete | settle | spend | setReady => exact ⟨loaded, state⟩
  | drain => exact absurd rfl drain
  | fault => exact absurd rfl fault
  | clearFault => exact cleared
  | requestStop =>
    simp only [after, Executor.requestStop]
    split
    all_goals first | exact ⟨loaded, state⟩ | exact ⟨loaded, by simp⟩
  | arm =>
    simp only [after, Executor.arm] at cleared ⊢
    split
    all_goals first | exact ⟨loaded, state⟩ | exact cleared | exact absurd ‹_› state

theorem run_active {c : Course R} (h : c.IsActive) {ms : List Move} (drain : .drain ∉ ms)
    (fault : .fault ∉ ms) : (c.run ms).IsActive := by
  induction ms generalizing c with
  | nil => exact h
  | cons m ms ih =>
    rw [List.mem_cons, not_or] at drain fault
    exact ih (after_active h (Ne.symm drain.1) (Ne.symm fault.1)) drain.2 fault.2

end Course

/-! ## The moves of a period -/

/-- The steps that fill the queue, at most `count`. -/
def Course.planMoves (c : Course R) : Nat → List Move
  | 0 => []
  | count + 1 =>
    match (c.executor.step c.queue).1 with
    | .ok .advanced => .step :: (c.after .step).planMoves count
    | _ => [.step]

theorem Course.eq_step_of_mem_planMoves {c : Course R} {count : Nat} {m : Move}
    (h : m ∈ c.planMoves count) : m = .step := by
  induction count generalizing c with
  | zero => cases h
  | succ count ih =>
    unfold planMoves at h
    split at h
    · rcases List.mem_cons.mp h with rfl | h
      · rfl
      · exact ih h
    · exact List.mem_singleton.mp h

theorem Course.planMoves_active {c : Course R} (h : c.IsActive) (count : Nat) :
    (c.run (c.planMoves count)).IsActive :=
  c.run_active h (fun h => nomatch eq_step_of_mem_planMoves h)
    fun h => nomatch eq_step_of_mem_planMoves h

namespace Machine

omit [Scalar R] in
/-- The executor and its queue. -/
def course (m : Machine R) : Course R := ⟨m.executor, m.queue⟩

omit [Scalar R] in
/-- The machine with another executor and queue. -/
def withCourse (m : Machine R) (c : Course R) : Machine R := m.withMotion c.executor c.queue

/-- What comes before planning: time is counted, lines in flight are settled, and a stop is passed
on unless the controller has a fault. -/
def openingMoves (m : Machine R) : List Move :=
  if m.status.fault?.isNone && m.stopRequested then [.spend m.periodMillis, .settle, .requestStop]
  else [.spend m.periodMillis, .settle]

/-- The machine after the opening moves. -/
def opened (m : Machine R) : Machine R := m.withCourse (m.course.run m.openingMoves)

/-- What comes after the opening moves. -/
def closingMoves (m : Machine R) : List Move :=
  if m.status.fault?.isSome then [.fault]
  else match m.executor.state with
    | .stopping => [.drain]
    | .done | .idle => []
    | .ready | .emitting | .blocked | .faulted =>
      m.course.planMoves m.queue.capacity ++
        if (m.plan m.queue.capacity).1.isSome then [.fault] else []

/-- The moves of a period of winding. -/
def windMoves (m : Machine R) : List Move := m.openingMoves ++ m.opened.closingMoves

/-- The executor and the queue after a period of winding. -/
def windCourse (m : Machine R) : Course R := m.course.run m.windMoves

variable {m m' : Machine R}

theorem windCourse_eq (m : Machine R) :
    m.windCourse = m.opened.course.run m.opened.closingMoves :=
  Course.run_append ..

/-! ## Planning -/

/-- Planning is a course of steps. -/
theorem plan_noted (m : Machine R) (count : Nat) :
    (m.withCourse (m.course.run (m.course.planMoves count))).Noted (m.plan count).2 := by
  induction count generalizing m with
  | zero => exact .refl m
  | succ count ih =>
    unfold plan Course.planMoves
    rcases hs : m.executor.step m.queue with ⟨result, x, q⟩
    have after : m.course.after .step = ⟨x, q⟩ := by rw [Course.after, course, hs]
    have once : m.course.run [.step] = ⟨x, q⟩ := after
    simp only [course, hs]
    rcases result with e | outcome
    · rw [← course, once]
      exact .refl _
    · cases outcome with
      | advanced =>
        rw [Course.run_cons, ← course, after]
        exact ih (m.withMotion x q)
      | blocked | finished =>
        rw [← course, once]
        exact .refl _
      | pause =>
        rw [← course, once]
        exact note_noted ..

theorem plan_course (m : Machine R) (count : Nat) :
    (m.plan count).2.course = m.course.run (m.course.planMoves count) := by
  obtain ⟨records, files, e, -⟩ := m.plan_noted count
  rw [e]
  rfl

/-! ## The work of a period -/

theorem opened_eq (m : Machine R) :
    m.opened = { m with
      executor :=
        if m.status.fault?.isNone && m.stopRequested then
          ((m.executor.spend m.periodMillis).settle m.queue).requestStop
        else (m.executor.spend m.periodMillis).settle m.queue } := by
  unfold opened openingMoves
  split <;> rfl

theorem updateWind_eq (m : Machine R) :
    m.updateWind = match m.status.fault? with
      | some reason => (m.opened.fault "plc" reason).as (some .stop)
      | none =>
        match m.opened.executor.state with
        | .stopping => m.opened.windDown
        | .done =>
          if m.queue.isEmpty then m.opened.finishRecipe.as (some .stop)
          else m.opened.syncProgress.as none
        | .idle => (.ok (some .stop), m.opened)
        | .ready | .emitting | .blocked | .faulted => m.opened.windOn := by
  rw [opened_eq]
  unfold updateWind
  simp only [status, queue]
  by_cases fault : m.exchange.status.fault? = none
  · by_cases stop : m.stopRequested = true
    · simp only [fault, stop]
      rfl
    · simp only [fault, stop]
      rfl
  · obtain ⟨reason, fault⟩ := Option.ne_none_iff_exists'.mp fault
    simp [fault]

/-- Winding leaves for stop. -/
theorem transition_of_wind (h : m.transition .stop = (.ok (), m')) (mode : m.mode = .wind) :
    m.stopped.Synced m' := by
  obtain ⟨m₁, m₂, left, noted, rfl⟩ := transition_eq_ok h (by rw [mode]; decide)
  rw [leave, mode] at left
  obtain ⟨records, files, rfl, updates⟩ := (syncProgress_eq_ok left).noted noted
  exact ⟨records, files, rfl, updates⟩

/-- The machine that goes back to the first line that has not run, because of a fault. -/
def faulting (m : Machine R) (kind message : String) : Machine R :=
  let c := m.course.fault
  let m := match c.executor.session with
    | some s => (m.withCourse c).raiseWound s.layer
    | none => m.withCourse c
  m.withRecord fun r =>
    (rewound c.executor.committedLine? r).withFault m.now kind message c.executor.committedLine?

theorem fault_eq (m : Machine R) (kind message : String) :
    m.fault kind message = (m.faulting kind message).save.andThen fun _ m' =>
      (.ok (), { m'.note "wind" "fault" message
          [("kind", kind), ("line", lineText m.course.fault.executor.committedLine?)] with
        lastError := some message, stopRequested := false }) :=
  rfl

theorem faulting_synced (m : Machine R) (kind message : String) :
    (m.withCourse m.course.fault).Synced (m.faulting kind message) := by
  rcases session : m.course.fault.executor.session with _ | s
  · have none : m.course.fault.executor.committedLine? = none := by
      rw [Executor.committedLine?, session]
      rfl
    have same : (m.withCourse m.course.fault).synced m.record = m.record := by
      rw [synced, withCourse, withMotion, session]
    simp only [faulting, session, none]
    exact ⟨_, _, rfl, .once (.refl _) (same.symm ▸ ⟨rfl, rfl, rfl, rfl⟩)⟩
  · have same : (m.withCourse m.course.fault).synced m.record =
        rewound m.course.fault.executor.committedLine?
          ((m.withCourse m.course.fault).raiseWound s.layer).record := by
      rw [synced, withCourse, withMotion, session]
      rfl
    simp only [faulting, session]
    exact ⟨_, _, rfl, .once (.refl _) (same.symm ▸ ⟨rfl, rfl, rfl, rfl⟩)⟩

theorem fault_eq_ok {kind message : String} (h : m.fault kind message = (.ok (), m')) :
    Synced { m.withCourse m.course.fault with
      lastError := some message, stopRequested := false } m' := by
  rw [fault_eq] at h
  obtain ⟨_, m₁, saved, h⟩ := Outcome.andThen_eq_ok h
  obtain ⟨records, files, rfl, updates⟩ := (m.faulting_synced kind message).noted (save_eq_ok saved)
  cases h
  exact ⟨records, _, rfl, updates⟩

/-- The machine whose recipe is forgotten. -/
def unloaded (m : Machine R) : Machine R :=
  { m with executor := { m.executor with session := none, state := .idle, inFlight := [] } }

/-- The machine whose frame goes to its next stage, without a recipe. -/
def finishing (m : Machine R) (x : Executor R) : Machine R :=
  { m with executor := x }.withRecord fun r => r.advance.withoutRecipe

theorem finishRecipe_eq (m : Machine R) :
    m.finishRecipe = m.syncProgress.andThen fun _ m' =>
      match m'.executor.unload with
      | .error e => (.error (.executor e), m')
      | .ok x => (m'.finishing x).save.andThen fun _ m'' =>
        (.ok (), m''.noteComplete ((m'.executor.session.map Session.layer).getD "")) :=
  rfl

theorem finishRecipe_eq_ok (h : m.finishRecipe = (.ok (), m')) :
    ∃ records files r, m' = { m.unloaded with records := records, files := files } ∧
      m.record.Updates m.synced r ∧ records.record.wound = r.wound := by
  rw [finishRecipe_eq] at h
  obtain ⟨_, m₁, synced, h⟩ := Outcome.andThen_eq_ok h
  obtain ⟨records, files, rfl, updates⟩ := syncProgress_eq_ok synced
  simp only at h
  split at h
  · cases h
  · next x unloaded =>
    obtain rfl := Except.ok.inj (Executor.unlessRunning_eq_ok unloaded)
    obtain ⟨_, m₂, saved, h⟩ := Outcome.andThen_eq_ok h
    obtain ⟨records', files', rfl, wound, -⟩ := save_eq_ok saved
    cases h
    exact ⟨records', _, records.record, rfl, updates, wound⟩

/-! ## What a period of winding can do -/

/-- What a period of winding can do, when `c` is the course at its end. -/
inductive WindPeriod (m : Machine R) (c : Course R) : Machine R → Prop
  | windsOn {m' : Machine R} (active : m.course.IsActive → c.IsActive)
      (synced : (m.withCourse c).Synced m') : WindPeriod m c m'
  | stops {m' : Machine R} (error : Option String) (empty : c.queue.entries = [])
      (synced : Synced { m.withCourse c with lastError := error }.stopped m') : WindPeriod m c m'
  /-- The recipe has run to its end. -/
  | finishes {m' : Machine R} (done : c.executor.state = .done) (empty : c.queue.entries = [])
      (session : c.executor.session = m.executor.session)
      (forgotten : ∃ records files r,
        m' = { (m.withCourse c).unloaded.stopped with records := records, files := files } ∧
          m.record.Updates (m.withCourse c).synced r ∧ records.record.wound = r.wound) :
      WindPeriod m c m'
  /-- There was nothing to wind. -/
  | idles {m' : Machine R} (idle : m.executor.state = .idle) : WindPeriod m c m'

theorem fault_period {kind message : String} {m₁ : Machine R} (mode : m.mode = .wind)
    (failed : m.fault kind message = (.ok (), m₁)) (goes : m₁.GoesOver (some .stop) m') :
    m.WindPeriod m.course.fault m' := by
  obtain ⟨records, files, rfl, updates⟩ := fault_eq_ok failed
  exact .stops (some message) rfl
    (.trans ⟨records, files, rfl, updates⟩ (transition_of_wind goes mode))

theorem sync_period {c : Course R} {m₁ : Machine R} (active : m.course.IsActive → c.IsActive)
    (synced : (m.withCourse c).syncProgress = (.ok (), m₁)) (goes : m₁.GoesOver none m') :
    m.WindPeriod c m' := by
  obtain rfl : m' = _ := goes
  exact .windsOn active (syncProgress_eq_ok synced)

theorem finish_period {c : Course R} {m₁ : Machine R} (mode : m.mode = .wind)
    (done : c.executor.state = .done) (empty : c.queue.entries = [])
    (session : c.executor.session = m.executor.session)
    (finished : (m.withCourse c).finishRecipe = (.ok (), m₁)) (goes : m₁.GoesOver (some .stop) m') :
    m.WindPeriod c m' := by
  obtain ⟨records, files, r, rfl, updates, wound⟩ := finishRecipe_eq_ok finished
  obtain ⟨records', files', rfl, updates'⟩ := transition_of_wind goes mode
  have kept : records'.record.wound = records.record.wound :=
    updates'.keeps (fun _ _ same => same.1) fun _ => rfl
  exact .finishes done empty session ⟨records', files', r, rfl, updates, kept.trans wound⟩

/-- Winding down ends only with an empty queue. -/
theorem drain_empty (state : m.executor.state = .stopping)
    (still : (m.course.after .drain).executor.state.isRunning = false) : m.queue.entries = [] := by
  by_contra busy
  have isEmpty : m.queue.isEmpty = false := by
    rwa [Queue.isEmpty, List.isEmpty_eq_false_iff]
  simp [Course.after, Executor.drain, course, isEmpty, state, ExecutorState.isRunning] at still

theorem windDown_period {next : Option Mode} {m₁ : Machine R} (mode : m.mode = .wind)
    (state : m.executor.state = .stopping) (h : m.windDown = (.ok next, m₁))
    (goes : m₁.GoesOver next m') : m.WindPeriod (m.course.after .drain) m' := by
  have quiet := m.course.after_quiet (m := .drain) rfl
  have drained : (m.executor.drain m.queue.isEmpty).1 =
      !(m.course.after .drain).executor.state.isRunning := rfl
  simp only [windDown, drained] at h
  split at h
  · next running =>
    obtain ⟨_, synced, rfl⟩ := Outcome.as_eq_ok h
    refine sync_period (fun active => ⟨quiet.session ▸ active.1, fun idle => ?_⟩) synced goes
    simp [idle, ExecutorState.isRunning] at running
  · next still =>
    have still : (m.course.after .drain).executor.state.isRunning = false := by simpa using still
    split at h
    · next done =>
      obtain ⟨_, finished, rfl⟩ := Outcome.as_eq_ok h
      exact finish_period mode done (drain_empty state still) quiet.session finished goes
    · obtain ⟨_, m₂, synced, h⟩ := Outcome.andThen_eq_ok h
      cases h
      have synced : (m.withCourse (m.course.after .drain)).Synced m₂ := syncProgress_eq_ok synced
      obtain ⟨records, files, rfl, updates⟩ := synced
      exact .stops m.lastError (drain_empty state still)
        (.trans ⟨records, _, rfl, updates⟩ (transition_of_wind goes mode))

theorem windOn_period {next : Option Mode} {m₁ : Machine R} (mode : m.mode = .wind)
    (h : m.windOn = (.ok next, m₁)) (goes : m₁.GoesOver next m') :
    m.WindPeriod (m.course.run (m.course.planMoves m.queue.capacity ++
      if (m.plan m.queue.capacity).1.isSome then [.fault] else [])) m' := by
  have planned := m.plan_noted m.queue.capacity
  have course := m.plan_course m.queue.capacity
  rw [Course.run_append, ← course]
  unfold windOn at h
  rcases hp : m.plan m.queue.capacity with ⟨error, m₂⟩
  rw [hp] at h planned course
  obtain ⟨records, files, rfl, same⟩ := planned
  rcases error with _ | e
  · obtain ⟨_, synced, rfl⟩ := Outcome.as_eq_ok h
    obtain rfl : m' = _ := goes
    refine .windsOn (fun active => ?_)
      (Noted.synced ⟨records, files, rfl, same⟩ (syncProgress_eq_ok synced))
    exact Course.planMoves_active active _
  · obtain ⟨_, failed, rfl⟩ := Outcome.as_eq_ok h
    obtain ⟨records', files', rfl, updates⟩ := fault_eq_ok failed
    exact .stops (some e.message) rfl
      (.trans ⟨records', files', rfl, updates.of_same same⟩ (transition_of_wind goes mode))

theorem opened_active (h : m.course.IsActive) : m.opened.course.IsActive := by
  refine Course.run_active h ?_ ?_ <;>
  · unfold openingMoves
    split <;> simp

theorem opened_session (m : Machine R) : m.opened.executor.session = m.executor.session := by
  rw [opened_eq]
  simp only
  split
  · unfold Executor.requestStop
    split <;> rfl
  · rfl

theorem idle_of_opened (h : m.opened.executor.state = .idle) : m.executor.state = .idle := by
  rw [opened_eq] at h
  simp only at h
  split at h
  · unfold Executor.requestStop at h
    split at h
    all_goals first | exact h | cases h
  · exact h

theorem WindPeriod.of_opened {c : Course R} (h : m.opened.WindPeriod c m') :
    m.WindPeriod c m' := by
  cases h with
  | windsOn active synced => exact .windsOn (fun h => active (opened_active h)) synced
  | stops error empty synced => exact .stops error empty synced
  | finishes done empty session forgotten =>
    exact .finishes done empty (session.trans m.opened_session) forgotten
  | idles idle => exact .idles (idle_of_opened idle)

theorem tick_wind (mode : m.mode = .wind) (h : m.tick = (.ok (), m')) :
    m.WindPeriod m.windCourse m' := by
  obtain ⟨next, m₁, updated, goes⟩ := tick_eq_ok h
  have update : m.update = m.updateWind := by rw [update, mode]
  rw [update, updateWind_eq] at updated
  have opened_mode : m.opened.mode = .wind := mode
  suffices m.opened.WindPeriod m.windCourse m' from this.of_opened
  have status : m.opened.status = m.status := rfl
  rw [windCourse_eq, closingMoves, status]
  split at updated
  · next reason fault =>
    obtain ⟨_, failed, rfl⟩ := Outcome.as_eq_ok updated
    rw [if_pos (Option.isSome_iff_exists.mpr ⟨reason, fault⟩)]
    exact fault_period opened_mode failed goes
  · next fault =>
    rw [if_neg (Option.not_isSome_iff_eq_none.mpr fault)]
    split at updated
    · exact windDown_period opened_mode ‹_› updated goes
    · next done =>
      split at updated
      · next empty =>
        obtain ⟨_, finished, rfl⟩ := Outcome.as_eq_ok updated
        have entries : m.opened.queue.entries = [] := by
          rw [opened_eq]
          exact List.isEmpty_iff.mp empty
        exact finish_period opened_mode done entries rfl finished goes
      · obtain ⟨_, synced, rfl⟩ := Outcome.as_eq_ok updated
        exact sync_period (fun active => active) synced goes
    · exact .idles ‹_›
    all_goals exact windOn_period opened_mode updated goes

end Machine

end Winding

import Winding.Proofs.Machine.Saves

/-!
# What is saved is up to date

In a period of winding every state in which the record is saved has the session of the end of the
period, and a record that was brought up to date with it, unless the recipe was finished and
forgotten (`Machine.tick_follows`). Elsewhere a save leaves the progress as it is
(`Machine.tick_goesOn`).
-/

namespace Winding

variable {R : Type} [Scalar R]

namespace Outcome

variable {α β : Type} {o : Outcome R α}

omit [Scalar R] in
/-- What holds after the first operation, and after the next one, holds in the end. -/
theorem andThen_snd {rest : α → Machine R → Outcome R β} {P : Machine R → Prop} (h : P o.2)
    (next : ∀ a m, o = (.ok a, m) → P (rest a m).2) : P (o.andThen rest).2 := by
  obtain ⟨e | a, m⟩ := o
  · exact h
  · exact next a m rfl

omit [Scalar R] in
theorem forall_saves {saves : α → Machine R → List (Machine R)} {P : Machine R → Prop}
    (h : ∀ a m, o = (.ok a, m) → ∀ m' ∈ saves a m, P m') : ∀ m' ∈ o.saves saves, P m' := by
  obtain ⟨e | a, m⟩ := o
  · exact List.forall_mem_nil _
  · exact h a m rfl

end Outcome

namespace Machine

variable {m m' m'' : Machine R} {ms : List (Machine R)}

/-- A machine with this executor, whose record was brought up to date. -/
def Dated (c m : Machine R) : Prop :=
  m.executor = c.executor ∧ c.record.Updates c.synced m.record

/-- A machine whose recipe has run to its end and is forgotten. The lengths in its record were
brought up to date before. -/
structure Forgets (c m : Machine R) : Prop where
  session : m.executor.session = none
  done : c.executor.state = .done
  settled : c.executor.inFlight = []
  wound : ∃ r, c.record.Updates c.synced r ∧ m.record.wound = r.wound

/-- A machine with this executor and base, whose record may have been brought up to date. -/
structure Tracks (c m : Machine R) : Prop where
  executor : m.executor = c.executor
  base : m.woundBase = c.woundBase
  record : c.record.SameProgress m.record ∨ c.record.Updates c.synced m.record

/-- Saves, and the machine after them. -/
structure Tracked (c : Machine R) (ms : List (Machine R)) (m : Machine R) : Prop where
  mode : m.mode = c.mode
  saves : ∀ m' ∈ ms, c.Forgets m' ∨ c.Dated m'
  result : c.Forgets m ∨ c.Tracks m

variable {c : Machine R}

theorem Synced.dated (h : c.Synced m) : c.Dated m := by
  obtain ⟨records, files, rfl, updates⟩ := h
  exact ⟨rfl, updates⟩

theorem Synced.tracks (h : c.Synced m) : c.Tracks m := by
  obtain ⟨records, files, rfl, updates⟩ := h
  exact ⟨rfl, rfl, .inr updates⟩

theorem Noted.tracks (h : c.Noted m) : c.Tracks m := by
  obtain ⟨records, files, rfl, same⟩ := h
  exact ⟨rfl, rfl, .inl same⟩

/-! ### One after the other -/

theorem Tracks.synced_eq (h : c.Tracks m) : m.synced = c.synced := by
  funext r
  rw [synced, synced, woundLength, woundLength, h.executor, h.base]

theorem Tracks.updates (h : c.Tracks m) {r : ApaRecord R} (updates : m.record.Updates m.synced r) :
    c.record.Updates c.synced r := by
  rw [h.synced_eq] at updates
  rcases h.record with same | before
  · exact updates.of_same same
  · exact before.trans updates

theorem Tracks.dated (h : c.Tracks m) (h' : m.Dated m') : c.Dated m' :=
  ⟨h'.1.trans h.executor, h.updates h'.2⟩

theorem Tracks.forgets (h : c.Tracks m) (h' : m.Forgets m') : c.Forgets m' := by
  obtain ⟨session, done, settled, r, updates, wound⟩ := h'
  rw [h.executor] at done settled
  exact ⟨session, done, settled, r, h.updates updates, wound⟩

theorem Tracks.trans (h : c.Tracks m) (h' : m.Tracks m') : c.Tracks m' where
  executor := h'.executor.trans h.executor
  base := h'.base.trans h.base
  record := by
    rcases h'.record with same | updates
    · rcases h.record with before | before
      · exact .inl (before.trans same)
      · exact .inr (before.same same)
    · exact .inr (h.updates updates)

theorem Synced.tracked (h : c.Synced m) : c.Tracked [] m := by
  refine ⟨?_, List.forall_mem_nil _, .inr h.tracks⟩
  obtain ⟨records, files, rfl, -⟩ := h
  rfl

theorem Tracks.tracked (h : c.Tracks m) (mode : m.mode = c.mode) (h' : m.Tracked ms m') :
    c.Tracked ms m' :=
  ⟨h'.mode.trans mode, fun m₁ hm => (h'.saves m₁ hm).imp h.forgets h.dated,
    h'.result.imp h.forgets h.trans⟩

/-- Nothing but the record and its file matters after the end of a recipe. -/
theorem Forgets.of_same (h : c.Forgets m) (session : m'.executor.session = none)
    (wound : m'.record.wound = m.record.wound) : c.Forgets m' := by
  obtain ⟨-, done, settled, r, updates, e⟩ := h
  exact ⟨session, done, settled, r, updates, wound.trans e⟩

theorem Tracked.congr (h : c.Tracked ms m) (mode : m'.mode = m.mode)
    (executor : m'.executor = m.executor) (base : m'.woundBase = m.woundBase)
    (record : m'.record = m.record) : c.Tracked ms m' := by
  refine ⟨mode.trans h.mode, h.saves, h.result.imp (fun forgets => ?_) fun tracks => ?_⟩
  · exact forgets.of_same (executor ▸ forgets.session) (by rw [record])
  · exact tracks.trans ⟨executor, base, .inl (record ▸ .refl _)⟩

/-- What comes last may write in the journal. -/
theorem Tracked.andThen {α β : Type} {o : Outcome R α} {rest : α → Machine R → Outcome R β}
    (h : c.Tracked ms o.2)
    (next : ∀ a (m' : Machine R), (rest a m').2.mode = m'.mode ∧
      (rest a m').2.executor = m'.executor ∧ (rest a m').2.woundBase = m'.woundBase ∧
      (rest a m').2.record = m'.record) : c.Tracked ms (o.andThen rest).2 := by
  obtain ⟨e | a, m'⟩ := o
  · exact h
  · obtain ⟨mode, executor, base, record⟩ := next a m'
    exact h.congr mode executor base record

/-- The saves of what comes next are added. -/
theorem Tracked.bind {α β : Type} {o : Outcome R α} {rest : α → Machine R → Outcome R β}
    {saves : α → Machine R → List (Machine R)} (h : c.Tracked ms o.2)
    (next : ∀ a m', o = (.ok a, m') → c.Tracked (saves a m') (rest a m').2) :
    c.Tracked (ms ++ o.saves saves) (o.andThen rest).2 := by
  obtain ⟨e | a, m'⟩ := o
  · rw [Outcome.saves, List.append_nil]
    exact h
  · obtain ⟨mode, saved, result⟩ := next a m' rfl
    exact ⟨mode, List.forall_mem_append.mpr ⟨h.saves, saved⟩, result⟩

theorem Tracked.as {α β : Type} {o : Outcome R α} {b : β} (h : c.Tracked ms o.2) :
    c.Tracked ms (o.as b).2 := by
  rwa [Outcome.as_snd]

/-! ## Winding -/

theorem mem_syncSaves (h : m' ∈ m.syncSaves) : m.Synced m' := by
  unfold syncSaves at h
  split at h
  · next s line session committed =>
    simp only at h
    split at h
    · next due =>
      obtain rfl := List.mem_singleton.mp h
      have recipe : (m.record.raise s.layer m.woundLength).2.recipe.isSome = true :=
        (Bool.and_eq_true_iff.mp due).1
      rw [ApaRecord.raise_recipe] at recipe
      have updated := synced_eq session committed recipe
      exact ⟨_, m.files, rfl, .once (.refl _) (updated ▸ .refl _)⟩
    · cases h
  · cases h

theorem syncProgress_tracked (m : Machine R) : m.Tracked m.syncSaves m.syncProgress.2 where
  mode := by
    obtain ⟨records, files, e, -⟩ := m.syncProgress_synced
    rw [e]
  saves _ h := .inr (mem_syncSaves h).dated
  result := .inr m.syncProgress_synced.tracks

theorem fault_tracked (m : Machine R) (kind message : String) :
    (m.withCourse m.course.fault).Tracked [m.faulting kind message] (m.fault kind message).2 := by
  have synced := m.faulting_synced kind message
  have saved : (m.withCourse m.course.fault).Tracked [m.faulting kind message]
      (m.faulting kind message).save.2 := by
    have filed := synced.noted (save_noted _)
    refine ⟨?_, fun m' h => .inr (List.mem_singleton.mp h ▸ synced.dated), .inr filed.tracks⟩
    obtain ⟨records, files, e, -⟩ := filed
    rw [e]
  rw [fault_eq]
  exact saved.andThen fun _ m' => ⟨rfl, rfl, rfl, rfl⟩

/-- A recipe that has run to its end is forgotten after its lengths were brought up to date. -/
theorem finishing_tracked (synced : m.Synced m') (done : m.executor.state = .done)
    (settled : m.executor.inFlight = []) {x : Executor R} (unloaded : m'.executor.unload = .ok x) :
    m.Tracked [m'.finishing x] (m'.finishing x).save.2 := by
  obtain rfl := Except.ok.inj (Executor.unlessRunning_eq_ok unloaded)
  obtain ⟨records, files, rfl, updates⟩ := synced
  have forgets : m.Forgets (({ m with records, files }).finishing
      { m.executor with session := none, state := .idle, inFlight := [] }) :=
    ⟨rfl, done, settled, _, updates, rfl⟩
  obtain ⟨records', files', e, wound, -⟩ := (({ m with records, files }).finishing
      { m.executor with session := none, state := .idle, inFlight := [] }).save_noted
  refine ⟨by rw [e]; rfl, fun m₁ h => .inl (List.mem_singleton.mp h ▸ forgets), .inl ?_⟩
  rw [e]
  exact forgets.of_same rfl wound

theorem finishRecipe_tracked (m : Machine R) (done : m.executor.state = .done)
    (settled : m.executor.inFlight = []) : m.Tracked m.finishSaves m.finishRecipe.2 := by
  rw [finishRecipe_eq]
  refine m.syncProgress_tracked.bind fun _ m' ok => ?_
  have synced := syncProgress_eq_ok ok
  rcases unloaded : m'.executor.unload with e | x
  · exact synced.tracked
  · have forgotten := finishing_tracked synced done settled unloaded
    exact forgotten.andThen fun _ m'' => ⟨rfl, rfl, rfl, rfl⟩

omit [Scalar R] in
/-- A recipe that winding down has run to its end has nothing in flight. -/
theorem drain_settled {x : Executor R} (empty : Bool) (state : x.state = .stopping)
    (done : (x.drain empty).2.state = .done) : (x.drain empty).2.inFlight = [] := by
  unfold Executor.drain at done ⊢
  simp only at done ⊢
  split
  · rfl
  · next busy =>
    rw [if_neg busy, state] at done
    cases done

theorem windDown_tracked (m : Machine R) (state : m.executor.state = .stopping) :
    (m.withCourse (m.course.after .drain)).Tracked m.windDownSaves m.windDown.2 := by
  have settled := drain_settled m.queue.isEmpty state
  unfold windDownSaves windDown
  simp only [Course.after, course]
  rcases hd : m.executor.drain m.queue.isEmpty with ⟨isDrained, x⟩
  rw [hd] at settled
  change Tracked { m with executor := x } _ _
  cases isDrained with
  | false => exact (syncProgress_tracked _).as
  | true =>
    simp only [Bool.true_and]
    by_cases done : x.state = .done
    · simp only [done, decide_true, if_true]
      exact (finishRecipe_tracked { m with executor := x } done (settled done)).as
    · simp only [done, decide_false]
      exact (syncProgress_tracked _).andThen fun _ m' => ⟨rfl, rfl, rfl, rfl⟩

theorem windOn_tracked (m : Machine R) :
    (m.withCourse (m.course.run (m.course.planMoves m.queue.capacity ++
      if (m.plan m.queue.capacity).1.isSome then [.fault] else []))).Tracked
      m.windOnSaves m.windOn.2 := by
  have planned := m.plan_noted m.queue.capacity
  rw [Course.run_append]
  unfold windOnSaves windOn
  generalize m.course.run (m.course.planMoves m.queue.capacity) = p at planned ⊢
  rcases hp : m.plan m.queue.capacity with ⟨_ | e, m'⟩
  · rw [hp] at planned
    obtain ⟨records, files, rfl, same⟩ := planned
    have tracks : (m.withCourse p).Tracks
        { m.withCourse p with records := records, files := files } := ⟨rfl, rfl, .inl same⟩
    exact (tracks.tracked rfl (syncProgress_tracked _)).as
  · rw [hp] at planned
    obtain ⟨records, files, rfl, same⟩ := planned
    have tracks : (m.withCourse p.fault).Tracks
        { m.withCourse p.fault with records := records, files := files } := ⟨rfl, rfl, .inl same⟩
    exact (tracks.tracked rfl
      (fault_tracked { m.withCourse p with records := records, files := files } _ _)).as

/-- After the opening moves of a period, an empty queue leaves nothing in flight. -/
theorem opened_settled (m : Machine R) (empty : m.queue.entries = []) :
    m.opened.executor.inFlight = [] := by
  have settled : ((m.executor.spend m.periodMillis).settle m.queue).inFlight = [] := by
    have none : m.queue.oldestLine? = none := by rw [Queue.oldestLine?, empty]; rfl
    simp [Executor.settle, none]
  rw [opened_eq]
  simp only
  split
  · unfold Executor.requestStop
    split <;> exact settled
  · exact settled

/-- What a period of winding saves is up to date. -/
theorem updateWind_tracked (m : Machine R) :
    (m.withCourse m.windCourse).Tracked m.windSaves m.updateWind.2 := by
  have status : m.opened.status = m.status := rfl
  have queue : m.opened.queue = m.queue := by rw [opened_eq]; rfl
  suffices (m.opened.withCourse m.windCourse).Tracked m.windSaves m.updateWind.2 from this
  rw [updateWind_eq, windSaves, windCourse_eq, closingMoves, status]
  rcases m.status.fault? with _ | reason
  · rcases state : m.opened.executor.state with _ | _ | _ | _ | _ | _ | _
    · exact ⟨rfl, List.forall_mem_nil _, .inr (Noted.refl m.opened).tracks⟩
    · exact m.opened.windOn_tracked
    · exact m.opened.windOn_tracked
    · exact m.opened.windOn_tracked
    · by_cases empty : m.queue.isEmpty = true
      · have settled := m.opened_settled (List.isEmpty_iff.mp empty)
        simp only [if_pos empty]
        exact (m.opened.finishRecipe_tracked state settled).as
      · simp only [if_neg empty]
        exact m.opened.syncProgress_tracked.as
    · exact m.opened.windOn_tracked
    · exact m.opened.windDown_tracked state
  · exact (m.opened.fault_tracked _ _).as

/-! ## Periods -/

/-- Without a session nothing is brought up to date. -/
theorem synced_eq_self (session : m.executor.session = none) (r : ApaRecord R) :
    m.synced r = r := by
  rw [synced, session]

theorem Forgets.dated (h : c.Forgets m) (h' : m.Dated m') : c.Forgets m' := by
  obtain ⟨executor, updates⟩ := h'
  refine h.of_same (executor ▸ h.session) (updates.keeps (fun _ _ same => same.1) fun r => ?_)
  rw [synced_eq_self h.session]

theorem Forgets.tracks (h : c.Forgets m) (h' : m.Tracks m') : c.Forgets m' := by
  rcases h'.record with same | updates
  · exact h.of_same (h'.executor ▸ h.session) same.1
  · exact h.dated ⟨h'.executor, updates⟩

/-- Winding is left with a record that is up to date. -/
theorem transition_tracks (m : Machine R) (mode : m.mode = .wind) (next : Mode) :
    (∀ m' ∈ m.transitionSaves next, m.Dated m') ∧ m.Tracks (m.transition next).2 := by
  unfold transitionSaves transition
  by_cases same : next = m.mode
  · rw [if_pos same, if_pos same]
    exact ⟨List.forall_mem_nil _, (Noted.refl m).tracks⟩
  · have leave : m.leave = m.syncProgress := by rw [leave, mode]
    have synced := m.syncProgress_synced
    rw [if_neg same, if_neg same, if_pos mode, leave, List.forall_mem_append]
    refine ⟨⟨fun m' h => (mem_syncSaves h).dated, ?_⟩, ?_⟩
    · refine Outcome.forall_saves fun _ m' ok => ?_
      exact List.forall_mem_singleton.mpr (syncProgress_eq_ok ok).dated
    · refine Outcome.andThen_snd synced.tracks fun _ m₁ left => ?_
      have filed := (syncProgress_eq_ok left).noted m₁.save_noted
      refine Outcome.andThen_snd filed.tracks fun _ m₂ saved => ?_
      rw [saved] at filed
      have tracks := filed.tracks
      cases next with
      | wind => exact absurd mode.symm same
      | stop | manual | calibration => exact tracks.trans ⟨rfl, rfl, .inl (.refl _)⟩

/-- The same session is loaded, and the record may have been brought up to date. -/
structure Follows (c m : Machine R) : Prop where
  session : m.executor.session = c.executor.session
  record : c.record.SameProgress m.record ∨ c.record.Updates c.synced m.record

theorem Dated.follows (h : c.Dated m) : c.Follows m := ⟨by rw [h.1], .inr h.2⟩

theorem Tracks.follows (h : c.Tracks m) : c.Follows m := ⟨by rw [h.executor], h.record⟩

/-- What a period of winding saves, and the record after it, follows the course of the period, also
when the period fails. -/
theorem tick_follows (mode : m.mode = .wind) :
    (∀ m' ∈ m.tickSaves,
      (m.withCourse m.windCourse).Forgets m' ∨ (m.withCourse m.windCourse).Follows m') ∧
    ((m.withCourse m.windCourse).Forgets m.tick.2 ∨
      (m.withCourse m.windCourse).Follows m.tick.2) := by
  have updated := m.updateWind_tracked
  have windMode : (m.withCourse m.windCourse).mode = .wind := mode
  have update : m.update = m.updateWind := by rw [Machine.update, mode]
  have saves : m.updateSaves = m.windSaves := by rw [updateSaves, mode]
  rw [tickSaves, tick, update, saves, List.forall_mem_append]
  generalize m.withCourse m.windCourse = c at updated windMode ⊢
  have saved (m' : Machine R) (h : m' ∈ m.windSaves) : c.Forgets m' ∨ c.Follows m' :=
    (updated.saves m' h).imp_right Dated.follows
  generalize m.updateWind = o at updated ⊢
  obtain ⟨e | next, m₁⟩ := o
  · exact ⟨⟨saved, List.forall_mem_nil _⟩, updated.result.imp_right Tracks.follows⟩
  · rcases next with _ | next
    · exact ⟨⟨saved, List.forall_mem_nil _⟩, updated.result.imp_right Tracks.follows⟩
    · obtain ⟨dated, tracks⟩ := m₁.transition_tracks (updated.mode.trans windMode) next
      refine ⟨⟨saved, fun m' h => updated.result.imp ?_ ?_⟩, updated.result.imp ?_ ?_⟩
      · exact fun forgets => forgets.dated (dated m' h)
      · exact fun before => (before.dated (dated m' h)).follows
      · exact fun forgets => forgets.tracks tracks
      · exact fun before => (before.trans tracks).follows

/-- A shutdown during winding saves what is up to date. -/
theorem shutdownSaves_follows (mode : m.mode = .wind) : ∀ m' ∈ m.shutdownSaves, m.Follows m' := by
  obtain ⟨dated, tracks⟩ := m.transition_tracks mode .stop
  refine List.forall_mem_append.mpr ⟨fun m' h => (dated m' h).follows, ?_⟩
  refine Outcome.forall_saves fun _ m' ok => List.forall_mem_singleton.mpr ?_
  rw [ok] at tracks
  exact tracks.follows

/-! ## Without winding -/

/-- Winding begins: the base is such that the wound length is the recorded one. -/
def Begun (m : Machine R) : Prop :=
  ∀ s, m.executor.session = some s →
    m.woundBase = m.record.length s.layer - m.executor.committedWire

/-- The session goes on with its progress, and if winding has just begun, with a base for it. -/
def GoesOn (m m' : Machine R) : Prop := m.SameSession m' ∧ (m'.mode = .wind → m'.Begun)

theorem Stays.goesOn (h : m.Stays m') (mode : m.mode ≠ .wind) : m.GoesOn m' :=
  ⟨h.toSameSession, fun wind => absurd (h.mode.symm.trans wind) mode⟩

theorem enterWind_begun (m : Machine R) : m.enterWind.Begun := by
  intro s session
  unfold enterWind at session ⊢
  rcases loaded : m.executor.session with _ | s'
  · rw [loaded] at session
    cases loaded.symm.trans session
  · rw [loaded] at session
    obtain rfl : s' = s := Option.some.inj (loaded.symm.trans session)
    rfl

/-- The machine goes over from a mode without winding with its session and its progress, and saves
them. -/
theorem transition_goesOn (mode : m.mode ≠ .wind) (next : Mode) :
    (∀ m' ∈ m.transitionSaves next, m.SameSession m') ∧ m.GoesOn (m.transition next).2 := by
  have refl : m.Stays m := ⟨.refl m, rfl⟩
  have left : m.Stays m.leave.2 := by
    unfold leave
    split
    · exact refl
    · exact refl
    · exact absurd ‹_› mode
    · exact .of_pose rfl rfl rfl
  unfold transitionSaves transition
  by_cases same : next = m.mode
  · rw [if_pos same, if_pos same]
    exact ⟨List.forall_mem_nil _, refl.goesOn mode⟩
  · rw [if_neg same, if_neg same, if_neg mode, List.nil_append]
    constructor
    · refine Outcome.forall_saves fun _ m₁ ok => List.forall_mem_singleton.mpr ?_
      rw [ok] at left
      exact left.toSameSession
    · refine Outcome.andThen_snd (left.goesOn mode) fun _ m₁ ok => ?_
      rw [ok] at left
      have saved : m.Stays m₁.save.2 :=
        ⟨left.toSameSession.trans m₁.save_noted.sameSession, by
          obtain ⟨records, files, e, -⟩ := m₁.save_noted
          rw [e]
          exact left.mode⟩
      refine Outcome.andThen_snd (saved.goesOn mode) fun _ m₂ ok' => ?_
      rw [ok'] at saved
      obtain ⟨session, inFlight, wire, progress⟩ := saved.toSameSession
      cases next with
      | wind =>
        refine ⟨?_, fun _ => enterWind_begun _⟩
        simp only [enter, enterWind]
        split <;> exact ⟨session, inFlight, wire, progress⟩
      | stop | manual | calibration =>
        exact ⟨⟨session, inFlight, wire, progress⟩, fun wind => by cases wind⟩

/-- Without winding a period goes on with the session and its progress, and saves them. -/
theorem tick_goesOn (mode : m.mode ≠ .wind) :
    (∀ m' ∈ m.tickSaves, m.SameSession m') ∧ m.GoesOn m.tick.2 := by
  have updated : (∀ m' ∈ m.updateSaves, m.SameSession m') ∧ m.Stays m.update.2 := by
    rw [updateSaves, update]
    rcases wind : m.mode with _ | _ | _ | _
    · exact ⟨List.forall_mem_nil _, m.updateStop_stays⟩
    · refine ⟨fun m' h => ?_, m.updateManual_stays⟩
      obtain ⟨reason, -, rfl⟩ := List.mem_map.mp h
      obtain ⟨session, inFlight, wire, progress⟩ :=
        droppingMotion_same { m with pendingManual := [] } reason
      exact ⟨session, inFlight, wire, progress⟩
    · exact absurd wind mode
    · refine ⟨fun m' h => ?_, m.updateCalibration_stays⟩
      obtain ⟨reason, -, rfl⟩ := List.mem_map.mp h
      exact m.droppingMotion_same reason
  obtain ⟨saves, result⟩ := updated
  constructor
  · refine List.forall_mem_append.mpr ⟨saves, Outcome.forall_saves fun next m₁ ok => ?_⟩
    rw [ok] at result
    rcases next with _ | next
    · exact List.forall_mem_nil _
    · obtain ⟨saves', -⟩ := transition_goesOn (result.mode ▸ mode) next
      exact fun m' h => result.toSameSession.trans (saves' m' h)
  · refine Outcome.andThen_snd (result.goesOn mode) fun next m₁ ok => ?_
    rw [ok] at result
    rcases next with _ | next
    · exact result.goesOn mode
    · obtain ⟨-, same, begun⟩ := transition_goesOn (result.mode ▸ mode) next
      exact ⟨result.toSameSession.trans same, begun⟩

/-- Without winding a shutdown saves the progress of the session. -/
theorem shutdownSaves_same (mode : m.mode ≠ .wind) : ∀ m' ∈ m.shutdownSaves, m.SameSession m' := by
  obtain ⟨saves, result, -⟩ := transition_goesOn mode .stop
  refine List.forall_mem_append.mpr ⟨saves, ?_⟩
  refine Outcome.forall_saves fun _ m' ok => List.forall_mem_singleton.mpr ?_
  rw [ok] at result
  exact result

/-! ## Commands -/

omit [Scalar R] in
/-- Arming an executor changes only its state. -/
theorem arm_eq_ok {x y : Executor R} (h : x.arm = .ok y) : y = { x with state := y.state } := by
  unfold Executor.arm at h
  split at h
  · cases h
    rfl
  · cases h
    rfl
  · cases h
    rfl
  · split at h
    · cases h
      rfl
    · cases h
  · next state =>
    rw [Executor.clearFault, if_pos state] at h
    cases h
    rfl
  · cases h
  · cases h

/-- A command that loads nothing keeps the session. -/
theorem Handled.same {c : Operator.Command R} (h : m.Handled c m') (unloaded : m.loads? c = none) :
    m.SameSession m' := by
  rcases h with
    - | - | @⟨x, -, -, loaded, armed⟩ | - | - | - | ⟨library, -, -, noted⟩ |
    ⟨_, _, _, loaded, _, _, _⟩
  · exact .refl m
  · exact .of_pose rfl (.refl _)
  · have executor := arm_eq_ok armed
    exact ⟨by rw [executor], by rw [executor], by rw [executor], .refl _⟩
  · exact .of_pose rfl (.refl _)
  · exact .of_pose rfl (.refl _)
  · exact .of_pose rfl (.refl _)
  · obtain ⟨records, files, rfl, same⟩ := noted
    exact .of_pose rfl same
  · rw [unloaded] at loaded
    cases loaded

/-- A command keeps the session and its progress, or adopts another session and saves it. -/
theorem handle_adopts (m : Machine R) (c : Operator.Command R) :
    (m.loads? c = none ∧ m.handleSaves c = [] ∧ m.SameSession (m.handle c).2) ∨
    ∃ (x : Executor R) (s : Session R) (path : String), m.loads? c = some s ∧
      m.handleSaves c = [m.adopting (x.begin s) path s.start] ∧
      (m.adopting (x.begin s) path s.start).Noted (m.handle c).2 := by
  have other (unloaded : m.loads? c = none) (saves : m.handleSaves c = [])
      {reply : Operator.Reply R} {m' : Machine R} (handled : m.handle c = (.ok reply, m')) :
      m.loads? c = none ∧ m.handleSaves c = [] ∧ m.SameSession (m.handle c).2 :=
    ⟨unloaded, saves, handled ▸ (handle_eq_ok handled).same unloaded⟩
  cases c with
  | load recipe line =>
    have written (o : Outcome R String) :
        (o.andThen fun text m => (.ok (Operator.Reply.line (R := R) text), m)).2 = o.2 := by
      obtain ⟨e | text, m'⟩ := o <;> rfl
    rw [loads?, handleSaves, handle, written]
    by_cases mode : m.mode = .stop
    · rw [if_neg (not_not.mpr mode), if_neg (not_not.mpr mode)]
      rcases hl : m.executor.load m.files (m.directory.recipePath recipe) (line.getD 0) with
        ⟨e | ⟨⟩, x⟩
      · obtain ⟨library, rfl⟩ := Executor.load_eq_error hl
        refine .inl ⟨rfl, rfl, ?_⟩
        rw [load, if_neg (not_not.mpr mode)]
        simp only [hl]
        exact .of_pose rfl (.refl _)
      · obtain ⟨library, s, start, -, -, rfl⟩ := Executor.load_eq_ok hl
        refine .inr ⟨_, s, m.directory.recipePath recipe, rfl, by rw [start], ?_⟩
        rw [load_eq_adopting mode hl rfl, start]
        generalize m.adopting _ _ (line.getD 0) = m₁
        exact Outcome.andThen_snd (P := m₁.Noted) m₁.save_noted fun _ m' ok =>
          (save_eq_ok ok).trans (note_noted ..)
    · rw [if_pos mode, if_pos mode, load, if_pos mode]
      exact .inl ⟨rfl, rfl, .refl m⟩
  | start | stop | jog | head | latch | status | calibrate | shutdown => exact .inl (other rfl rfl rfl)

end Machine

end Winding

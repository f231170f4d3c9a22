import Winding.Proofs.Machine.Handling
import Winding.Proofs.Machine.WindPeriods

/-!
# Coming to an end

Once a shutdown was asked for, the mode that the machine is in was told to stop, or has nothing to
queue (`Machine.IsClosing`). Whatever the machine does from then on, also when it fails, keeps this,
pushes nothing, and leaves the mode only for stop (`Machine.Closes`): a period
(`Machine.tick_closes`) and a command (`Machine.handle_closes`).
-/

namespace Winding

variable {R : Type}

/-- An executor that is asked to stop does not plan. -/
theorem Executor.requestStop_still (x : Executor R) : x.requestStop.state.isPlanning = false := by
  unfold requestStop
  split <;> simp [ExecutorState.isPlanning, *]

namespace Machine

/-- The mode has nothing to queue. -/
structure IsIdle (m : Machine R) : Prop where
  manual : m.mode = .manual → m.pendingManual = []
  wind : m.mode = .wind → m.executor.state.isPlanning = false
  calibration : m.mode = .calibration → ∀ pin, m.visit ≠ .wanted pin

/-- The mode was told to stop, or has nothing to queue. -/
def IsEnding (m : Machine R) : Prop := m.stopRequested = true ∨ m.IsIdle

/-- A shutdown was asked for, and the mode comes to its end. -/
structure IsClosing (m : Machine R) : Prop where
  shutdown : m.shutdownRequested = true
  ending : m.IsEnding

/-- The second machine comes of the first without a push, and still comes to its end. -/
structure Closes (m m' : Machine R) : Prop where
  shutdown : m'.shutdownRequested = m.shutdownRequested
  queue : m'.queue = m.queue ∨ m'.queue = m.queue.clear.2
  mode : m'.mode = m.mode ∨ m'.mode = .stop
  ending : m.IsEnding → m'.IsEnding

variable {m m' m'' : Machine R} {α β : Type}

/-- A stopped machine queues nothing by itself. -/
theorem isIdle_of_stop (mode : m.mode = .stop) : m.IsIdle := by
  constructor <;> intro other <;> cases mode.symm.trans other

theorem isIdle_of_manual (mode : m.mode = .manual) (manual : m.pendingManual = []) :
    m.IsIdle where
  manual _ := manual
  wind other := by cases mode.symm.trans other
  calibration other := by cases mode.symm.trans other

theorem isIdle_of_wind (mode : m.mode = .wind) (still : m.executor.state.isPlanning = false) :
    m.IsIdle where
  manual other := by cases mode.symm.trans other
  wind _ := still
  calibration other := by cases mode.symm.trans other

theorem isIdle_of_calibration (mode : m.mode = .calibration)
    (visit : ∀ pin, m.visit ≠ .wanted pin) : m.IsIdle where
  manual other := by cases mode.symm.trans other
  wind other := by cases mode.symm.trans other
  calibration _ := visit

theorem IsIdle.congr (h : m.IsIdle) (mode : m'.mode = m.mode)
    (manual : m'.pendingManual = m.pendingManual)
    (state : m'.executor.state = m.executor.state) (visit : m'.visit = m.visit) : m'.IsIdle := by
  refine ⟨?_, ?_, ?_⟩
  · rw [mode, manual]
    exact h.manual
  · rw [mode, state]
    exact h.wind
  · rw [mode, visit]
    exact h.calibration

theorem Closes.refl (m : Machine R) : m.Closes m := ⟨rfl, .inl rfl, .inl rfl, id⟩

theorem Closes.trans (h : m.Closes m') (h' : m'.Closes m'') : m.Closes m'' where
  shutdown := h'.shutdown.trans h.shutdown
  queue := by
    rcases h.queue with q | q <;> rcases h'.queue with q' | q' <;> rw [q', q]
    · exact .inl rfl
    · exact .inr rfl
    · exact .inr rfl
    · exact .inr rfl
  mode := by
    rcases h'.mode with mode | mode
    · rw [mode]
      exact h.mode
    · exact .inr mode
  ending := h'.ending ∘ h.ending

theorem Closes.andThen {o : Outcome R α} {rest : α → Machine R → Outcome R β} (h : m.Closes o.2)
    (next : ∀ a (m' : Machine R), m'.Closes (rest a m').2) : m.Closes (o.andThen rest).2 := by
  obtain ⟨e | a, m'⟩ := o
  · exact h
  · exact h.trans (next a m')

/-- What is filed does not matter, and neither does what waits to begin. -/
theorem Closes.of_same (shutdown : m'.shutdownRequested = m.shutdownRequested)
    (queue : m'.queue = m.queue) (mode : m'.mode = m.mode)
    (stop : m'.stopRequested = m.stopRequested) (manual : m'.pendingManual = m.pendingManual)
    (executor : m'.executor = m.executor) (visit : m'.visit = m.visit) : m.Closes m' := by
  refine ⟨shutdown, .inl queue, .inl mode, ?_⟩
  rw [IsEnding, IsEnding, stop]
  exact Or.imp_right fun idle => idle.congr mode manual (by rw [executor]) visit

theorem Noted.closes (h : m.Noted m') : m.Closes m' := by
  obtain ⟨records, files, rfl, -⟩ := h
  exact .of_same rfl rfl rfl rfl rfl rfl rfl

/-- Nothing begins in a machine that is stopped. -/
theorem Closes.of_stop (shutdown : m'.shutdownRequested = m.shutdownRequested)
    (queue : m'.queue = m.queue) (mode : m'.mode = .stop) : m.Closes m' :=
  ⟨shutdown, .inl queue, .inr mode, fun _ => .inr (isIdle_of_stop mode)⟩

/-- An executor that does not begin to plan queues nothing. -/
theorem Closes.of_executor {x : Executor R}
    (still : m.executor.state.isPlanning = false → x.state.isPlanning = false) :
    m.Closes { m with executor := x } :=
  ⟨rfl, .inl rfl, .inl rfl, Or.imp_right fun idle =>
    ⟨idle.manual, still ∘ idle.wind, idle.calibration⟩⟩

variable [Scalar R]

theorem Synced.closes (h : m.Synced m') : m.Closes m' := by
  obtain ⟨records, files, rfl, -⟩ := h
  exact .of_same rfl rfl rfl rfl rfl rfl rfl

/-! ## Single operations -/

/-- A fault ends winding, also when it cannot be saved. -/
theorem fault_closes (mode : m.mode = .wind) (kind message : String) :
    m.Closes (m.fault kind message).2 := by
  obtain ⟨records, files, faulted, -⟩ := (m.faulting_synced kind message).noted (save_noted _)
  rw [fault_eq]
  rcases hs : (m.faulting kind message).save with ⟨e | ⟨⟩, m'⟩
  all_goals
    rw [hs] at faulted
    obtain rfl : m' = _ := faulted
    exact ⟨rfl, .inr rfl, .inl rfl, fun _ => .inr (isIdle_of_wind mode rfl)⟩

/-- A fault outside winding drops what is queued. Unless that could not be saved, a stop is
forgotten. -/
theorem motionFault_cases (m : Machine R) (source message : String) :
    (∃ e m', m.motionFault source message = (.error e, m') ∧ (m.droppingMotion message).Noted m') ∨
    ∃ m', m.motionFault source message = (.ok (), m') ∧ (m.motionFaulted message).Noted m' := by
  rcases failed : m.motionFault source message with ⟨e | ⟨⟩, m'⟩
  · refine .inl ⟨e, m', rfl, ?_⟩
    have saved := (m.droppingMotion message).save_noted
    rw [motionFault_eq] at failed
    rcases hs : (m.droppingMotion message).save with ⟨e | ⟨⟩, m₁⟩ <;> rw [hs] at failed saved
    · cases failed
      exact saved
    · cases failed
  · exact .inr ⟨m', rfl, motionFault_eq_ok failed⟩

/-- Motion that is dropped does not come back where nothing else was to be queued. -/
theorem motionFault_closes (idle : m.IsIdle) (source message : String) :
    m.Closes (m.motionFault source message).2 := by
  have state := (m.executor.syncPosition_fields m.status.position).2.2
  rcases m.motionFault_cases source message with
    ⟨e, m', failed, records, files, rfl, -⟩ | ⟨m', failed, records, files, rfl, -⟩
  all_goals
    rw [failed]
    exact ⟨rfl, .inr rfl, .inl rfl, fun _ => .inr (idle.congr rfl rfl state rfl)⟩

theorem finishRecipe_closes (m : Machine R) : m.Closes m.finishRecipe.2 := by
  refine m.syncProgress_synced.closes.andThen fun _ m' => ?_
  simp only
  split
  · exact .refl m'
  · next x unloaded =>
    obtain rfl := Except.ok.inj (Executor.unlessRunning_eq_ok unloaded)
    have forgotten : m'.Closes m'.unloaded := .of_executor fun _ => rfl
    have written : m'.unloaded.Closes (m'.unloaded.withRecord fun r => r.advance.withoutRecipe) :=
      .of_same rfl rfl rfl rfl rfl rfl rfl
    exact ((forgotten.trans written).trans (save_noted _).closes).andThen fun _ m'' =>
      (note_noted ..).closes

theorem leave_closes (m : Machine R) : m.Closes m.leave.2 := by
  unfold leave
  split
  · exact .refl m
  · exact .refl m
  · exact m.syncProgress_synced.closes
  · exact ⟨rfl, .inl rfl, .inl rfl, Or.imp_right fun idle => ⟨idle.manual, idle.wind, nofun⟩⟩

/-- Once the mode is left, going over to stop closes. -/
theorem leave_transition_closes (ne : m.mode ≠ .stop) :
    m.leave.2.Closes (m.transition .stop).2 := by
  rw [transition, if_neg ne.symm]
  exact (Closes.refl _).andThen fun _ m' => m'.save_noted.closes.andThen fun _ _ =>
    .of_stop rfl rfl rfl

theorem transition_closes (m : Machine R) : m.Closes (m.transition .stop).2 := by
  by_cases stop : m.mode = .stop
  · rw [transition, if_pos stop.symm]
    exact .refl m
  · exact m.leave_closes.trans (leave_transition_closes stop)

/-! ## The work of the modes -/

omit [Scalar R] in
/-- The work of a period closes, and asks for no mode but stop. -/
structure ClosesBy (m : Machine R) (o : Outcome R (Option Mode)) : Prop where
  closes : m.Closes o.2
  next : ∀ next, o.1 = .ok (some next) → next = .stop

section

omit [Scalar R]

theorem ClosesBy.stops {o : Outcome R Unit} (h : m.Closes o.2) : m.ClosesBy (o.as (some .stop)) := by
  obtain ⟨e | ⟨⟩, m'⟩ := o
  · exact ⟨h, nofun⟩
  · exact ⟨h, fun next asked => (Option.some.inj (Except.ok.inj asked)).symm⟩

theorem ClosesBy.stays {o : Outcome R Unit} (h : m.Closes o.2) : m.ClosesBy (o.as none) := by
  obtain ⟨e | ⟨⟩, m'⟩ := o
  · exact ⟨h, nofun⟩
  · exact ⟨h, nofun⟩

end

theorem ClosesBy.tick (h : m.ClosesBy m.update) : m.Closes m.tick.2 := by
  rw [Machine.tick]
  generalize m.update = o at h
  obtain ⟨closes, stop⟩ := h
  rcases o with ⟨e | _ | next, m'⟩
  · exact closes
  · exact closes
  · obtain rfl := stop next rfl
    exact closes.trans m'.transition_closes

omit [Scalar R] in
theorem updateStop_closes (mode : m.mode = .stop) (shutdown : m.shutdownRequested = true) :
    m.ClosesBy m.updateStop := by
  rw [updateStop, if_pos (show _ = true from shutdown)]
  exact ⟨.of_stop rfl rfl mode, fun next asked => by cases asked⟩

theorem updateManual_closes (mode : m.mode = .manual) (ending : m.IsEnding) :
    m.ClosesBy m.updateManual := by
  have idle : ({ m with pendingManual := [] } : Machine R).IsIdle := isIdle_of_manual mode rfl
  have dropped : m.Closes { m with pendingManual := [] } :=
    ⟨rfl, .inl rfl, .inl rfl, fun _ => .inr idle⟩
  unfold updateManual
  split
  · exact .stops (dropped.trans (motionFault_closes idle _ _))
  · have none : (if m.stopRequested then { m with pendingManual := [] } else m) =
        { m with pendingManual := [] } := by
      split
      · rfl
      · next stop => rw [← (ending.resolve_left stop).manual mode]
    simp only [none]
    refine ⟨dropped, fun next asked => ?_⟩
    split at asked <;> cases asked
    rfl

/-- A stop is passed on to the executor before it plans. -/
theorem opened_still (mode : m.mode = .wind) (ending : m.IsEnding)
    (fault : m.status.fault? = none) : m.opened.executor.state.isPlanning = false := by
  rw [opened_eq, fault]
  simp only
  split
  · exact Executor.requestStop_still _
  · next stop =>
    exact (ending.resolve_left (by simpa using stop)).wind mode

/-- Planning does not go on after a fault. -/
theorem plan_faulted (state : m.executor.state = .faulted) (count : Nat) :
    (m.plan count).2 = m := by
  cases count with
  | zero => rfl
  | succ count =>
    have step : m.executor.step m.queue = (.error .faulted, m.executor, m.queue) := by
      rw [Executor.step, state]
    rw [plan, step]
    rfl

theorem windOn_closes (mode : m.mode = .wind) (state : m.executor.state = .faulted) :
    m.ClosesBy m.windOn := by
  have planned := m.plan_faulted state m.queue.capacity
  unfold windOn
  rcases hp : m.plan m.queue.capacity with ⟨_ | e, m'⟩ <;> rw [hp] at planned
  · obtain rfl : m' = m := planned
    exact .stays m'.syncProgress_synced.closes
  · obtain rfl : m' = m := planned
    exact .stops (fault_closes mode _ _)

theorem windDown_closes (m : Machine R) : m.ClosesBy m.windDown := by
  have drained : m.Closes { m with executor := (m.executor.drain m.queue.isEmpty).2 } := by
    refine .of_executor fun still => ?_
    unfold Executor.drain
    split
    · simp only
      split <;> rfl
    · exact still
  have synced := drained.trans (syncProgress_synced _).closes
  unfold windDown
  simp only
  split
  · exact .stays synced
  · split
    · exact .stops (drained.trans (finishRecipe_closes _))
    · refine ⟨synced.andThen fun _ m' => (note_noted ..).closes, fun next asked => ?_⟩
      obtain ⟨_, m', -, stop⟩ := Outcome.andThen_eq_ok (Prod.ext asked rfl)
      exact (Option.some.inj (Except.ok.inj (Prod.mk.inj stop).1)).symm

theorem updateWind_closes (mode : m.mode = .wind) (ending : m.IsEnding) :
    m.ClosesBy m.updateWind := by
  have opened : m.Closes m.opened := by
    rw [opened_eq]
    refine .of_executor fun still => ?_
    split
    · exact Executor.requestStop_still _
    · exact still
  have winding : m.opened.mode = .wind := mode
  suffices m.opened.ClosesBy m.updateWind from ⟨opened.trans this.closes, this.next⟩
  rw [updateWind_eq]
  split
  · exact .stops (fault_closes winding _ _)
  · next fault =>
    have still := opened_still mode ending fault
    split
    · exact windDown_closes _
    · split
      · exact .stops (finishRecipe_closes _)
      · exact .stays (syncProgress_synced _).closes
    · exact .stops (o := (.ok (), m.opened)) (.refl _)
    -- the three states that plan: a stop took the executor out of them before this match
    · next ready => cases (congrArg ExecutorState.isPlanning ready).symm.trans still
    · next emitting => cases (congrArg ExecutorState.isPlanning emitting).symm.trans still
    · next blocked => cases (congrArg ExecutorState.isPlanning blocked).symm.trans still
    · next faulted => exact windOn_closes winding faulted

/-- A visit to a pin ends, or it has queued its move. -/
theorem updateCalibration_closes (mode : m.mode = .calibration) (ending : m.IsEnding)
    (fault : m.status.fault? = none) : m.ClosesBy m.updateCalibration := by
  have noted (kind : String) : m.ClosesBy (.ok (some .stop), m.notePosition kind) :=
    .stops (o := (.ok (), m.notePosition kind)) (note_noted ..).closes
  unfold updateCalibration
  rw [fault]
  simp only
  split
  · exact .stops (o := (.ok (), m)) (.refl m)
  · next pin wanted =>
    -- a visit that waits to begin is something to queue, so the mode was told to stop
    have stop : m.stopRequested = true :=
      ending.resolve_right fun idle => idle.calibration mode pin wanted
    rw [if_pos stop]
    exact noted _
  · split
    · exact noted _
    · exact .stays (o := (.ok (), m)) (.refl m)

/-! ## Periods and commands -/

/-- A visit is over as soon as its mode is left, even when the change of the mode cannot be saved. -/
theorem transition_isEnding (mode : m.mode = .calibration) : (m.transition .stop).2.IsEnding := by
  have left : m.leave.2 = { m with visit := .none } := by rw [leave, mode]
  have ended : ({ m with visit := .none } : Machine R).IsEnding :=
    .inr (isIdle_of_calibration mode fun pin wanted => by cases wanted)
  exact (leave_transition_closes (by rw [mode]; decide)).ending (left ▸ ended)

/-- A fault of the controller ends a visit, whatever it was told: the stop is forgotten while the
visit still waits, but its mode is left in the same period. -/
theorem faulted_visit_closes (mode : m.mode = .calibration) (reason : String) :
    m.Closes ((m.motionFault "calibration" reason).andThen fun _ m' => m'.transition .stop).2 := by
  have state := (m.executor.syncPosition_fields m.status.position).2.2
  rcases m.motionFault_cases "calibration" reason with
    ⟨e, m', failed, records, files, rfl, -⟩ | ⟨m', failed, noted⟩
  · rw [failed]
    exact ⟨rfl, .inr rfl, .inl rfl, Or.imp_right fun idle => idle.congr rfl rfl state rfl⟩
  · -- the stop that made `m` come to its end is forgotten here, so `ending` is proved afresh
    have left := m'.transition_closes
    obtain ⟨records, files, rfl, -⟩ := noted
    have ends := transition_isEnding (m := { m.motionFaulted reason with
      records := records, files := files }) mode
    rw [failed]
    exact ⟨left.shutdown, .inr (left.queue.elim id id), left.mode, fun _ => ends⟩

theorem tick_calibration_closes (mode : m.mode = .calibration) (ending : m.IsEnding) :
    m.Closes m.tick.2 := by
  have update : m.update = m.updateCalibration := by rw [update, mode]
  rcases fault : m.status.fault? with _ | reason
  · exact ClosesBy.tick (update ▸ updateCalibration_closes mode ending fault)
  · have faulted : m.updateCalibration = (m.motionFault "calibration" reason).as (some .stop) := by
      unfold updateCalibration
      rw [fault]
    have tick : m.tick =
        (m.motionFault "calibration" reason).andThen fun _ m' => m'.transition .stop := by
      rw [Machine.tick, update, faulted]
      rcases m.motionFault "calibration" reason with ⟨e | ⟨⟩, m'⟩ <;> rfl
    rw [tick]
    exact faulted_visit_closes mode reason

/-- In a period of a machine that comes to its end nothing is pushed. -/
theorem tick_closes (h : m.IsClosing) : m.Closes m.tick.2 := by
  obtain ⟨shutdown, ending⟩ := h
  rcases mode : m.mode with _ | _ | _ | _
  · exact ClosesBy.tick (by rw [update, mode]; exact updateStop_closes mode shutdown)
  · exact ClosesBy.tick (by rw [update, mode]; exact updateManual_closes mode ending)
  · exact ClosesBy.tick (by rw [update, mode]; exact updateWind_closes mode ending)
  · exact tick_calibration_closes mode ending

omit [Scalar R] in
/-- After a shutdown was asked for, manual motion is refused. -/
theorem ask_closed (shutdown : m.shutdownRequested = true) (request : ManualRequest R) :
    (m.ask request).2 = m := by
  rw [ask, if_pos shutdown]
  split <;> rfl

theorem jog_closed (shutdown : m.shutdownRequested = true) (target : Location R)
    (velocity : Option R) : (m.jog target velocity).2 = m := by
  unfold jog
  split
  · rfl
  · split
    · rfl
    · exact ask_closed shutdown _

/-- A recipe is loaded only in a stopped machine, which it leaves stopped. -/
theorem load_closes (m : Machine R) (recipe : String) (line : Nat) :
    m.Closes (m.load recipe line).2 := by
  by_cases mode : m.mode = .stop
  · rcases hl : m.executor.load m.files (m.directory.recipePath recipe) line with ⟨e | ⟨⟩, x⟩
    · rw [load, if_neg (not_not.mpr mode)]
      simp only [hl]
      exact .of_stop rfl rfl mode
    · obtain ⟨library, s, -, -, -, rfl⟩ := Executor.load_eq_ok hl
      rw [load_eq_adopting mode hl rfl]
      have begun : m.Closes (m.adopting ({ m.executor with library := library }.begin s)
        (m.directory.recipePath recipe) line) := .of_stop rfl rfl mode
      exact (begun.trans (save_noted _).closes).andThen fun _ m' => (note_noted ..).closes
  · rw [load, if_pos mode]
    exact .refl m

/-- A command makes nothing begin after a shutdown was asked for, also when it fails. -/
theorem handle_closes (shutdown : m.shutdownRequested = true) (c : Operator.Command R) :
    m.Closes (m.handle c).2 := by
  cases c with
  | start =>
    have refused : m.start.2 = m := by rw [start, if_pos shutdown]
    exact refused.symm ▸ .refl m
  | stop => exact ⟨rfl, .inl rfl, .inl rfl, fun _ => .inl rfl⟩
  | jog target velocity => exact (jog_closed shutdown target velocity).symm ▸ .refl m
  | head side => exact (ask_closed shutdown (.head side)).symm ▸ .refl m
  | latch side => exact (ask_closed shutdown (.latch side)).symm ▸ .refl m
  | load recipe line => exact (m.load_closes recipe _).andThen fun _ m' => .refl m'
  | status => exact .refl m
  | calibrate pin =>
    have kept : m.Closes (m.calibrate pin).2 := by
      unfold calibrate
      split
      · exact .refl m
      · split
        · exact .refl m
        · split
          · exact .of_same rfl rfl rfl rfl rfl rfl rfl
          · exact .refl m
    exact kept
  | shutdown => exact ⟨shutdown.symm, .inl rfl, .inl rfl, fun _ => .inl rfl⟩

end Machine

end Winding

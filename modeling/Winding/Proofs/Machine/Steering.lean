import Winding.Proofs.Machine.WindPeriods
import Winding.Proofs.Motion.Numbers

/-!
# The machine and the queue

Whatever the machine does in a period, also when it fails, it changes the queue in two ways only:
primitives are pushed that fit, and all entries are dropped (`Machine.tick_steers`).
-/

namespace Winding

variable {R : Type} [Scalar R]

/-- The queue of the second machine is that of the first after pushes and drops. -/
def Machine.Steers (m m' : Machine R) : Prop := m.queue.Steers m'.queue

theorem Executor.Pushes.steers {x x' : Executor R} {q q' : Queue R} (h : x.Pushes q x' q') :
    q.Steers q' := by
  obtain ⟨pose, p, ⟨pushed, -⟩, -⟩ := h
  exact .push pushed

namespace Course

theorem step_steers (c : Course R) : c.queue.Steers (c.after .step).queue := by
  rcases c.step_cases with ⟨s, plan, q, -, -, -, pushed, -, e⟩ | ⟨-, -, same⟩
  · rw [e]
    exact .push pushed
  · rw [same]
    exact .refl _

theorem plan_steers (c : Course R) (count : Nat) :
    c.queue.Steers (c.run (c.planMoves count)).queue := by
  have steps : ∀ m ∈ c.planMoves count, m = .step := fun m => c.eq_step_of_mem_planMoves
  generalize c.planMoves count = ms at steps
  induction ms generalizing c with
  | nil => exact .refl _
  | cons m ms ih =>
    obtain ⟨rfl, rest⟩ := List.forall_mem_cons.mp steps
    exact c.step_steers.trans (ih _ rest)

end Course

namespace Machine

variable {m m' m'' : Machine R} {α β : Type}

section

omit [Scalar R]

theorem Steers.refl (m : Machine R) : m.Steers m := Queue.Steers.refl _

theorem Steers.trans (h : m.Steers m') (h' : m'.Steers m'') : m.Steers m'' :=
  Queue.Steers.trans h h'

theorem Steers.andThen {o : Outcome R α} {rest : α → Machine R → Outcome R β} (h : m.Steers o.2)
    (next : ∀ a (m' : Machine R), m'.Steers (rest a m').2) : m.Steers (o.andThen rest).2 := by
  obtain ⟨e | a, m'⟩ := o
  · exact h
  · exact h.trans (next a m')

theorem Steers.as {o : Outcome R α} {b : β} (h : m.Steers o.2) : m.Steers (o.as b).2 := by
  rwa [Outcome.as_snd]

theorem Noted.steers (h : m.Noted m') : m.Steers m' := by
  obtain ⟨records, files, rfl, -⟩ := h
  exact .refl m

end

theorem Synced.steers (h : m.Synced m') : m.Steers m' := by
  obtain ⟨records, files, rfl, -⟩ := h
  exact .refl m

/-! ## Single operations -/

theorem motionFault_steers (m : Machine R) (source message : String) :
    m.Steers (m.motionFault source message).2 := by
  have dropped : m.Steers (m.droppingMotion message) := .clear m.queue
  rw [motionFault_eq]
  exact (dropped.trans (save_noted _).steers).andThen fun _ m' => .refl m'

theorem fault_steers (m : Machine R) (kind message : String) :
    m.Steers (m.fault kind message).2 := by
  have cleared : m.Steers (m.withCourse m.course.fault) := .clear m.queue
  have dropped := cleared.trans (m.faulting_synced kind message).steers
  rw [fault_eq]
  exact (dropped.trans (save_noted _).steers).andThen fun _ m' => .refl m'

theorem finishRecipe_steers (m : Machine R) : m.Steers m.finishRecipe.2 := by
  refine m.syncProgress_synced.steers.andThen fun _ m' => ?_
  simp only
  split
  · exact .refl m'
  · next x _ =>
    have same : m'.Steers ({ m' with executor := x }.withRecord fun r => r.advance.withoutRecipe) :=
      .refl m'
    exact (same.trans (save_noted _).steers).andThen fun _ m'' => .refl m''

theorem leave_steers (m : Machine R) : m.Steers m.leave.2 := by
  unfold leave
  split
  · exact .refl m
  · exact .refl m
  · exact m.syncProgress_synced.steers
  · exact .refl m

theorem enter_steers (m : Machine R) (mode : Mode) : m.Steers (m.enter mode) := by
  cases mode with
  | stop | manual | calibration => exact .refl m
  | wind =>
    simp only [enter, enterWind]
    split <;> exact .refl m

theorem transition_steers (m : Machine R) (next : Mode) : m.Steers (m.transition next).2 := by
  unfold transition
  split
  · exact .refl m
  · refine m.leave_steers.andThen fun _ m' => m'.save_noted.steers.andThen fun _ m'' => ?_
    exact enter_steers { m''.note _ _ _ _ with mode := next } next

/-! ## The work of the modes -/

omit [Scalar R] in
theorem updateStop_steers (m : Machine R) : m.Steers m.updateStop.2 := by
  unfold updateStop
  simp only
  repeat' split
  all_goals exact .refl m

theorem carryOut_steers (m : Machine R) (request : ManualRequest R)
    (later : List (ManualRequest R)) : m.Steers (m.carryOut request later) := by
  unfold carryOut
  split
  · exact .refl m
  · split
    · next queued => exact (queueRequest_pushes queued).steers
    · exact .refl m
    · exact .refl m

theorem updateManual_steers (m : Machine R) : m.Steers m.updateManual.2 := by
  unfold updateManual
  split
  · exact (motionFault_steers { m with pendingManual := [] } _ _).as
  · have dropped : m.Steers (if m.stopRequested then { m with pendingManual := [] } else m) := by
      split <;> exact .refl m
    simp only
    split
    · exact dropped.trans (carryOut_steers _ _ _)
    · exact dropped

theorem updateCalibration_steers (m : Machine R) : m.Steers m.updateCalibration.2 := by
  unfold updateCalibration
  split
  · exact (m.motionFault_steers _ _).as
  · split
    · exact .refl m
    · split
      · exact .refl m
      · unfold visitPin
        split
        · exact .refl m
        · split
          · next pushed => exact (Executor.seekPin_pushes pushed).steers
          · exact .refl m
    · split <;> exact .refl m

theorem windOn_steers (m : Machine R) : m.Steers m.windOn.2 := by
  have planned : m.Steers (m.plan m.queue.capacity).2 := by
    have pushed := m.course.plan_steers m.queue.capacity
    rwa [← plan_course] at pushed
  unfold windOn
  rcases hp : m.plan m.queue.capacity with ⟨_ | e, m'⟩
  · rw [hp] at planned
    exact (planned.trans m'.syncProgress_synced.steers).as
  · rw [hp] at planned
    exact (planned.trans (m'.fault_steers _ _)).as

theorem windDown_steers (m : Machine R) : m.Steers m.windDown.2 := by
  have drained : m.Steers { m with executor := (m.executor.drain m.queue.isEmpty).2 } := .refl m
  unfold windDown
  simp only
  split
  · exact (drained.trans (syncProgress_synced _).steers).as
  · split
    · exact (drained.trans (finishRecipe_steers _)).as
    · exact (drained.trans (syncProgress_synced _).steers).andThen fun _ m' => .refl m'

theorem updateWind_steers (m : Machine R) : m.Steers m.updateWind.2 := by
  have opened : m.Steers m.opened := by
    rw [opened_eq]
    exact .refl m
  refine opened.trans ?_
  rw [updateWind_eq]
  split
  · exact (m.opened.fault_steers _ _).as
  · split
    · exact m.opened.windDown_steers
    · split
      · exact m.opened.finishRecipe_steers.as
      · exact m.opened.syncProgress_synced.steers.as
    · exact .refl _
    all_goals exact m.opened.windOn_steers

/-- In a period, primitives are pushed that fit, and all entries are dropped. -/
theorem tick_steers (m : Machine R) : m.Steers m.tick.2 := by
  have updated : m.Steers m.update.2 := by
    unfold update
    split
    · exact m.updateStop_steers
    · exact m.updateManual_steers
    · exact m.updateWind_steers
    · exact m.updateCalibration_steers
  refine updated.andThen fun next m' => ?_
  rcases next with _ | next
  · exact .refl m'
  · exact m'.transition_steers next

end Machine

end Winding

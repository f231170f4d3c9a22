import Winding.Proofs.Machine.Handling
import Winding.Proofs.Machine.WindPeriods

/-!
# When a frame advances

Whatever the machine does, also when it fails, the frame stays at its stage and a session stays
loaded (`Machine.Keeps`). There is one exception: a period of winding at whose end the last line was
queued and nothing is queued any more (`Machine.tick_keeps_or_ends`).
-/

namespace Winding

variable {R : Type} [Scalar R]

namespace Course

theorem fault_session_isSome (c : Course R) :
    c.fault.executor.session.isSome = c.executor.session.isSome := by
  simp only [fault, Executor.fault]
  split
  · simp [Executor.rewind, Executor.foldl_takeBack_session]
  · rfl

/-- No move loads or forgets a session. -/
theorem after_session_isSome (c : Course R) (m : Move) :
    (c.after m).executor.session.isSome = c.executor.session.isSome := by
  rcases m.kinds with rfl | ⟨seq, rfl⟩ | rfl | hm
  · rcases c.step_cases with ⟨s, plan, q, session, -, -, -, -, e⟩ | ⟨-, quiet, -⟩
    · rw [e, session]
      rfl
    · rw [quiet.session]
  · rfl
  · exact c.fault_session_isSome
  · rw [(c.after_quiet hm).session]

theorem run_session_isSome (c : Course R) (ms : List Move) :
    (c.run ms).executor.session.isSome = c.executor.session.isSome := by
  induction ms generalizing c with
  | nil => rfl
  | cons m ms ih => rw [run_cons, ih, after_session_isSome]

end Course

namespace Machine

/-- The frame is at the same stage, and a session that was loaded still is. -/
def Keeps (m m' : Machine R) : Prop :=
  m'.record.stage = m.record.stage ∧ (m.executor.session.isSome → m'.executor.session.isSome)

/-- The last line was queued, and nothing is queued any more. -/
def Ends (m : Machine R) (c : Course R) : Prop :=
  c.executor.state = .done ∧ c.queue.entries = [] ∧ c.executor.session = m.executor.session

variable {m m' m'' : Machine R} {α β : Type}

section

omit [Scalar R]

theorem Keeps.refl (m : Machine R) : m.Keeps m := ⟨rfl, id⟩

theorem Keeps.trans (h : m.Keeps m') (h' : m'.Keeps m'') : m.Keeps m'' :=
  ⟨h'.1.trans h.1, h'.2 ∘ h.2⟩

theorem Noted.keeps (h : m.Noted m') : m.Keeps m' := by
  obtain ⟨records, files, rfl, -, -, -, stage⟩ := h
  exact ⟨stage, id⟩

theorem Stays.keeps (h : m.Stays m') : m.Keeps m' :=
  ⟨h.progress.2.2.2, fun loaded => h.session.symm ▸ loaded⟩

theorem Keeps.andThen {o : Outcome R α} {rest : α → Machine R → Outcome R β} (h : m.Keeps o.2)
    (next : ∀ a (m' : Machine R), m'.Keeps (rest a m').2) : m.Keeps (o.andThen rest).2 := by
  obtain ⟨e | a, m'⟩ := o
  · exact h
  · exact h.trans (next a m')

theorem Keeps.as {o : Outcome R α} {b : β} (h : m.Keeps o.2) : m.Keeps (o.as b).2 := by
  rwa [Outcome.as_snd]

end

theorem Synced.keeps (h : m.Synced m') : m.Keeps m' := by
  refine ⟨h.stage, ?_⟩
  obtain ⟨records, files, rfl, -⟩ := h
  exact id

/-! ## Single operations -/

theorem withCourse_keeps (m : Machine R) (ms : List Move) :
    m.Keeps (m.withCourse (m.course.run ms)) :=
  ⟨rfl, fun loaded => (m.course.run_session_isSome ms).symm ▸ loaded⟩

theorem opened_keeps (m : Machine R) : m.Keeps m.opened := m.withCourse_keeps _

theorem fault_keeps (m : Machine R) (kind message : String) : m.Keeps (m.fault kind message).2 := by
  rw [fault_eq]
  have written : m.Keeps (m.faulting kind message).save.2 :=
    ((m.withCourse_keeps [.fault]).trans (m.faulting_synced kind message).keeps).trans
      (save_noted _).keeps
  exact written.andThen fun _ m' => ⟨rfl, id⟩

theorem leave_keeps (m : Machine R) : m.Keeps m.leave.2 := by
  unfold leave
  split
  · exact .refl m
  · exact .refl m
  · exact m.syncProgress_synced.keeps
  · exact ⟨rfl, id⟩

theorem enter_keeps (m : Machine R) (mode : Mode) : m.Keeps (m.enter mode) := by
  cases mode with
  | stop | manual | calibration => exact ⟨rfl, id⟩
  | wind =>
    simp only [enter, enterWind]
    split <;> exact ⟨rfl, id⟩

theorem transition_keeps (m : Machine R) (next : Mode) : m.Keeps (m.transition next).2 := by
  unfold transition
  split
  · exact .refl m
  · refine m.leave_keeps.andThen fun _ m' => m'.save_noted.keeps.andThen fun _ m'' => ?_
    exact .trans ⟨rfl, id⟩ (enter_keeps { m''.note _ _ _ _ with mode := next } next)

/-! ## The work of the modes -/

theorem windOn_keeps (m : Machine R) : m.Keeps m.windOn.2 := by
  have planned := m.withCourse_keeps (m.course.planMoves m.queue.capacity)
  have noted := (m.plan_noted m.queue.capacity).keeps
  unfold windOn
  rcases hp : m.plan m.queue.capacity with ⟨_ | e, m'⟩
  · rw [hp] at noted
    exact Keeps.as ((planned.trans noted).trans m'.syncProgress_synced.keeps)
  · rw [hp] at noted
    exact Keeps.as ((planned.trans noted).trans (m'.fault_keeps _ _))

theorem windDown_keeps_or_ends (m : Machine R) (state : m.executor.state = .stopping) :
    m.Keeps m.windDown.2 ∨ m.Ends (m.course.after .drain) := by
  have drained : m.Keeps { m with executor := (m.executor.drain m.queue.isEmpty).2 } :=
    m.withCourse_keeps [.drain]
  have still : (m.executor.drain m.queue.isEmpty).1 =
      !(m.course.after .drain).executor.state.isRunning := rfl
  simp only [windDown, still]
  split
  · exact .inl (drained.trans (syncProgress_synced _).keeps).as
  · split
    · next done =>
      have ended : (m.course.after .drain).executor.state = .done := done
      exact .inr ⟨done, drain_empty state (by rw [ended]; rfl), (m.course.after_quiet rfl).session⟩
    · exact .inl (.andThen (drained.trans (syncProgress_synced _).keeps) fun _ m' => ⟨rfl, id⟩)

theorem Ends.of_opened {c : Course R} (h : m.opened.Ends c) : m.Ends c :=
  ⟨h.1, h.2.1, h.2.2.trans m.opened_session⟩

theorem updateWind_keeps_or_ends (m : Machine R) :
    m.Keeps m.updateWind.2 ∨ m.Ends m.windCourse := by
  have opened := m.opened_keeps
  have status : m.opened.status = m.status := rfl
  suffices m.opened.Keeps m.updateWind.2 ∨ m.opened.Ends m.windCourse from
    this.imp opened.trans Ends.of_opened
  rw [updateWind_eq, windCourse_eq, closingMoves, status]
  split
  · exact .inl (m.opened.fault_keeps _ _).as
  · next fault =>
    rw [if_neg (Option.not_isSome_iff_eq_none.mpr fault)]
    split
    · exact m.opened.windDown_keeps_or_ends ‹_›
    · next done =>
      split
      · next empty =>
        have queue : m.opened.queue = m.queue := by rw [opened_eq]; rfl
        rw [← queue] at empty
        exact .inr ⟨done, List.isEmpty_iff.mp empty, rfl⟩
      · exact .inl m.opened.syncProgress_synced.keeps.as
    · exact .inl (.refl _)
    all_goals exact .inl m.opened.windOn_keeps

/-- A period keeps the stage and the session, or the recipe has run to its end. -/
theorem tick_keeps_or_ends (m : Machine R) :
    m.Keeps m.tick.2 ∨ m.mode = .wind ∧ m.Ends m.windCourse := by
  have ticked (h : m.Keeps m.update.2) : m.Keeps m.tick.2 := by
    refine h.andThen fun next m' => ?_
    rcases next with _ | next
    · exact .refl m'
    · exact m'.transition_keeps next
  have update : m.Keeps m.update.2 ∨ m.mode = .wind ∧ m.Ends m.windCourse := by
    rw [Machine.update]
    rcases mode : m.mode with _ | _ | _ | _
    · exact .inl m.updateStop_stays.keeps
    · exact .inl m.updateManual_stays.keeps
    · exact m.updateWind_keeps_or_ends.imp_right fun ends => ⟨rfl, ends⟩
    · exact .inl m.updateCalibration_stays.keeps
  exact update.imp_left ticked

/-! ## Commands -/

theorem handled_keeps {c : Operator.Command R} (h : m.Handled c m') : m.Keeps m' := by
  rcases h with
    - | - | @⟨x, -, -, loaded, armed⟩ | - | - | - | ⟨library, -, -, noted⟩ |
    @⟨_, _, s, library, path, -, -, -, -, noted⟩
  · exact .refl m
  · exact ⟨rfl, id⟩
  · have session := m.course.arm_quiet.session
    rw [Course.after, course, armed] at session
    exact ⟨rfl, fun _ => (session : x.session = _).symm ▸ loaded⟩
  · exact ⟨rfl, id⟩
  · exact ⟨rfl, id⟩
  · exact ⟨rfl, id⟩
  · exact .trans ⟨rfl, id⟩ noted.keeps
  · have begun : m.Keeps (m.adopting ({ m.executor with library := library }.begin s) path s.start) :=
      ⟨rfl, fun _ => rfl⟩
    exact begun.trans noted.keeps

/-- Loading a recipe fails only when the record cannot be saved. -/
theorem load_keeps (m : Machine R) (recipe : String) (line : Nat) :
    m.Keeps (m.load recipe line).2 := by
  by_cases mode : m.mode = .stop
  · rcases hl : m.executor.load m.files (m.directory.recipePath recipe) line with ⟨e | ⟨⟩, x⟩
    · obtain ⟨library, rfl⟩ := Executor.load_eq_error hl
      rw [load, if_neg (not_not.mpr mode)]
      simp only [hl]
      exact ⟨rfl, id⟩
    · obtain ⟨library, s, -, -, -, rfl⟩ := Executor.load_eq_ok hl
      rw [load_eq_adopting mode hl rfl]
      have begun : m.Keeps (m.adopting ({ m.executor with library := library }.begin s)
        (m.directory.recipePath recipe) line) := ⟨rfl, fun _ => rfl⟩
      exact (begun.trans (save_noted _).keeps).andThen fun _ m' => ⟨rfl, id⟩
  · rw [load, if_pos mode]
    exact .refl m

/-- No command advances the frame or forgets the session. -/
theorem handle_keeps (m : Machine R) (c : Operator.Command R) : m.Keeps (m.handle c).2 := by
  rcases hh : m.handle c with ⟨e | reply, m'⟩
  · cases c with
    | load recipe line =>
      have failed : m.Keeps (m.handle (.load recipe line)).2 :=
        (m.load_keeps recipe _).andThen fun _ m' => .refl m'
      rwa [hh] at failed
    | _ => cases hh
  · exact handled_keeps (handle_eq_ok hh)

end Machine

end Winding

import Winding.Proofs.Controller.Wording
import Winding.Proofs.Execution.Wording
import Winding.Proofs.Machine.Handling
import Winding.Proofs.Machine.WindPeriods
import Winding.Proofs.Operator.Wording

/-!
# In what words the machine answers

What the machine can be told to name is named on one line (`Machine.Inline`), and this stays so in
every period and with every command. So a command is answered on one line, unless it loads a recipe
whose calibration file has a text in it that is not (`Machine.Inline.tellsHandle`).
-/

namespace Winding

variable {R : Type} [Scalar R]

/-! ## Courses -/

namespace Executor.Inline

variable {x : Executor R}

theorem foldl_takeBack (h : x.Inline) (ls : List (InFlight R)) : (ls.foldl takeBack x).Inline := by
  induction ls generalizing x with
  | nil => exact h
  | cons l ls ih => exact ih ⟨h.library, h.layer⟩

theorem fault (h : x.Inline) (unfinished : Option Nat) : (x.fault unfinished).Inline := by
  unfold Executor.fault
  split
  · next line _ =>
    have back := h.foldl_takeBack (x.inFlight.reverse.takeWhile fun l => line ≤ l.index)
    refine ⟨back.library, fun s session => ?_⟩
    obtain ⟨s', session', rfl⟩ := Option.map_eq_some_iff.mp session
    exact back.layer s' session'
  · exact ⟨h.library, h.layer⟩

omit [Scalar R] in
theorem syncPosition (h : x.Inline) (position : Location R) : (x.syncPosition position).Inline := by
  unfold Executor.syncPosition
  split
  · exact h
  · exact ⟨h.library, h.layer⟩

theorem pushes {x' : Executor R} {q q' : Queue R} (h : x.Inline) (pushed : x.Pushes q x' q') :
    x'.Inline := by
  obtain ⟨pose, p, -, rfl⟩ := pushed
  exact ⟨h.library, h.layer⟩

omit [Scalar R] in
theorem clearFault {x' : Executor R} (h : x.Inline) (cleared : x.clearFault = .ok x') :
    x'.Inline := by
  unfold Executor.clearFault at cleared
  split at cleared
  · cases cleared
    exact ⟨h.library, h.layer⟩
  · cases cleared

omit [Scalar R] in
theorem arm {x' : Executor R} (h : x.Inline) (armed : x.arm = .ok x') : x'.Inline := by
  unfold Executor.arm at armed
  split at armed
  · cases armed
    exact h
  · cases armed
    exact h
  · cases armed
    exact h
  · split at armed
    · cases armed
      exact ⟨h.library, h.layer⟩
    · cases armed
  · exact h.clearFault armed
  · cases armed
  · cases armed

theorem step (h : x.Inline) (q : Queue R) : (x.step q).2.1.Inline := by
  have stepped := x.step_stepped q
  generalize x.step q = r at stepped ⊢
  rcases stepped with @⟨s, _, _, session, -⟩ | - | - | - | - | -
  · refine ⟨h.library, ?_⟩
    rintro _ ⟨⟩
    exact h.layer s session
  · exact ⟨h.library, h.layer⟩
  · exact ⟨h.library, h.layer⟩
  · exact h
  · exact ⟨h.library, h.layer⟩
  · exact h

omit [Scalar R] in
theorem requestStop (h : x.Inline) : x.requestStop.Inline := by
  unfold Executor.requestStop
  split
  all_goals exact ⟨h.library, h.layer⟩

omit [Scalar R] in
theorem drain (h : x.Inline) (queueEmpty : Bool) : (x.drain queueEmpty).2.Inline := by
  unfold Executor.drain
  simp only
  split
  · exact ⟨h.library, h.layer⟩
  · exact h

omit [Scalar R] in
theorem unload {x' : Executor R} (h : x.Inline) (unloaded : x.unload = .ok x') : x'.Inline := by
  cases unlessRunning_eq_ok unloaded
  exact ⟨h.library, nofun⟩

end Executor.Inline

/-! ## The machine -/

/-- What the machine can be told to name is named on one line: the data directory, the file of the
record, what its executor names, and what is wrong with the controller. -/
structure Machine.Inline (m : Machine R) : Prop where
  directory : OneLine m.directory.root
  record : OneLine m.records.path
  executor : m.executor.Inline
  status : m.status.Inline

namespace RecordStore

variable {s s' : RecordStore R} {files files' : FileStore}

theorem save_path (s : RecordStore R) (files : FileStore) :
    (s.save files).2.1.path = s.path := by
  unfold save
  split <;> rfl

theorem oneLine_save (h : OneLine s.path) {e : PersistenceError}
    (failed : (s.save files).1 = .error e) : OneLine e.message := by
  unfold save at failed
  split at failed
  · cases failed
  · next wrote =>
    cases failed
    exact .append (by decide) (FileStore.oneLine_write h wrote)

end RecordStore

namespace Machine

namespace Inline

variable {m : Machine R} {α β : Type}

/-! ## Operations -/

omit [Scalar R] in
theorem andThen {o : Outcome R α} {rest : α → Machine R → Outcome R β} (h : o.2.Inline)
    (next : ∀ a (m : Machine R), m.Inline → (rest a m).2.Inline) : (o.andThen rest).2.Inline := by
  obtain ⟨e | a, m⟩ := o
  · exact h
  · exact next a m h

omit [Scalar R] in
theorem as {o : Outcome R α} (h : o.2.Inline) (b : β) : (o.as b).2.Inline := by
  rwa [Outcome.as_snd]

omit [Scalar R] in
theorem note (h : m.Inline) (source kind message : String) (params : List (String × String)) :
    (m.note source kind message params).Inline :=
  ⟨h.directory, h.record, h.executor, h.status⟩

omit [Scalar R] in
theorem withRecord (h : m.Inline) (change : ApaRecord R → ApaRecord R) :
    (m.withRecord change).Inline :=
  ⟨h.directory, h.record, h.executor, h.status⟩

omit [Scalar R] in
theorem withMotion (h : m.Inline) {x : Executor R} (hx : x.Inline) (q : Queue R) :
    (m.withMotion x q).Inline :=
  ⟨h.directory, h.record, hx, h.status⟩

omit [Scalar R] in
theorem persisted (h : m.Inline) {o : Except PersistenceError α × RecordStore R × FileStore}
    (path : o.2.1.path = m.records.path) : (m.persisted o).2.Inline :=
  ⟨h.directory, show OneLine o.2.1.path from path ▸ h.record, h.executor, h.status⟩

theorem save (h : m.Inline) : m.save.2.Inline :=
  h.persisted (m.records.save_path m.files)

theorem syncProgress (h : m.Inline) : m.syncProgress.2.Inline := by
  unfold Machine.syncProgress
  split
  · exact h
  · next s _ =>
    simp only
    split
    · exact h.withRecord _
    · next line _ =>
      have raised : (m.raiseWound s.layer).Inline := h.withRecord _
      rw [Outcome.as_snd, persisted_updateLine]
      split
      · exact raised
      · simp only
        split
        · exact (raised.withRecord _).save.as true
        · exact raised.withRecord _

theorem finishRecipe (h : m.Inline) : m.finishRecipe.2.Inline := by
  rw [finishRecipe_eq]
  refine h.syncProgress.andThen fun _ m' h' => ?_
  split
  · exact h'
  · next unloaded =>
    have finishing : (m'.finishing _).Inline :=
      (h'.withMotion (h'.executor.unload unloaded) m'.queue).withRecord _
    exact finishing.save.andThen fun _ m'' h'' => h''.note ..

theorem faulting (h : m.Inline) (kind message : String) : (m.faulting kind message).Inline := by
  have back := h.withMotion
    (h.executor.fault (m.queue.entries.filterMap QueueEntry.line).min?) m.queue.clear.2
  unfold Machine.faulting
  simp only
  split
  · exact (back.withRecord _).withRecord _
  · exact back.withRecord _

theorem fault (h : m.Inline) (kind message : String) : (m.fault kind message).2.Inline := by
  rw [fault_eq]
  refine (h.faulting kind message).save.andThen fun _ m' h' => ?_
  exact ⟨h'.directory, h'.record, h'.executor, h'.status⟩

theorem motionFault (h : m.Inline) (source message : String) :
    (m.motionFault source message).2.Inline := by
  have dropping : (m.droppingMotion message).Inline :=
    (h.withMotion (h.executor.syncPosition _) m.queue.clear.2).withRecord _
  rw [motionFault_eq]
  refine dropping.save.andThen fun _ m' h' => ?_
  exact ⟨h'.directory, h'.record, h'.executor, h'.status⟩

/-! ## Periods -/

theorem plan (h : m.Inline) (count : Nat) : (m.plan count).2.Inline := by
  induction count generalizing m with
  | zero => exact h
  | succ count ih =>
    have stepped := h.withMotion (h.executor.step m.queue) (m.executor.step m.queue).2.2
    unfold Machine.plan
    simp only
    split
    · exact ih stepped
    · exact stepped.note ..
    · exact stepped
    · exact stepped
    · exact stepped

theorem windOn (h : m.Inline) : m.windOn.2.Inline := by
  have planned := h.plan m.queue.capacity
  unfold Machine.windOn
  generalize m.plan m.queue.capacity = r at planned ⊢
  obtain ⟨_ | e, m'⟩ := r
  · exact planned.syncProgress.as _
  · exact (planned.fault _ _).as _

theorem windDown (h : m.Inline) : m.windDown.2.Inline := by
  have drained := h.withMotion (h.executor.drain m.queue.isEmpty) m.queue
  unfold Machine.windDown
  simp only
  split
  · exact drained.syncProgress.as _
  · split
    · exact drained.finishRecipe.as _
    · exact drained.syncProgress.andThen fun _ m' h' => h'.note ..

theorem opened (h : m.Inline) : m.opened.Inline := by
  have settled : ((m.executor.spend m.periodMillis).settle m.queue).Inline :=
    ⟨h.executor.library, h.executor.layer⟩
  rw [opened_eq]
  refine ⟨h.directory, h.record, ?_, h.status⟩
  simp only
  split
  · exact settled.requestStop
  · exact settled

theorem updateWind (h : m.Inline) : m.updateWind.2.Inline := by
  have opened := h.opened
  rw [updateWind_eq]
  split
  · exact (opened.fault _ _).as _
  · split
    · exact opened.windDown
    · split
      · exact opened.finishRecipe.as _
      · exact opened.syncProgress.as _
    · exact opened
    all_goals exact opened.windOn

theorem carryOut (h : m.Inline) (request : ManualRequest R) (later : List (ManualRequest R)) :
    (m.carryOut request later).Inline := by
  unfold Machine.carryOut
  split
  · exact h
  · split
    · next pushed => exact ⟨h.directory, h.record, h.executor.pushes (queueRequest_pushes pushed),
        h.status⟩
    · exact h
    · exact ⟨h.directory, h.record, h.executor, h.status⟩

theorem updateManual (h : m.Inline) : m.updateManual.2.Inline := by
  have dropped : Machine.Inline { m with pendingManual := [] } :=
    ⟨h.directory, h.record, h.executor, h.status⟩
  unfold Machine.updateManual
  split
  · exact (dropped.motionFault _ _).as _
  · have begun : (if m.stopRequested then { m with pendingManual := [] } else m).Inline := by
      split
      · exact dropped
      · exact h
    simp only
    split
    · exact begun.carryOut _ _
    · exact begun

theorem updateCalibration (h : m.Inline) : m.updateCalibration.2.Inline := by
  unfold Machine.updateCalibration
  split
  · exact (h.motionFault _ _).as _
  · split
    · exact h
    · split
      · exact h.note ..
      · unfold visitPin
        split
        · exact h
        · split
          · next pushed => exact ⟨h.directory, h.record,
              h.executor.pushes (Executor.seekPin_pushes pushed), h.status⟩
          · exact ⟨h.directory, h.record, h.executor, h.status⟩
    · split
      · exact h.note ..
      · exact h

omit [Scalar R] in
theorem updateStop (h : m.Inline) : m.updateStop.2.Inline := by
  have same : ∀ m' : Machine R, m'.directory = m.directory → m'.records = m.records →
      m'.executor = m.executor → m'.exchange = m.exchange → m'.Inline := by
    intro m' directory records executor exchange
    refine ⟨directory ▸ h.directory, records ▸ h.record, executor ▸ h.executor, ?_⟩
    rw [Machine.status, exchange]
    exact h.status
  unfold Machine.updateStop
  simp only
  split
  · exact same _ rfl rfl rfl rfl
  · split
    · exact same _ rfl rfl rfl rfl
    · split
      · exact same _ rfl rfl rfl rfl
      · split <;> exact same _ rfl rfl rfl rfl

theorem update (h : m.Inline) : m.update.2.Inline := by
  unfold Machine.update
  split
  · exact h.updateStop
  · exact h.updateManual
  · exact h.updateWind
  · exact h.updateCalibration

theorem leave (h : m.Inline) : m.leave.2.Inline := by
  unfold Machine.leave
  split
  · exact h
  · exact h
  · exact h.syncProgress
  · exact ⟨h.directory, h.record, h.executor, h.status⟩

theorem enter (h : m.Inline) (mode : Mode) : (m.enter mode).Inline := by
  cases mode with
  | stop | manual | calibration => exact ⟨h.directory, h.record, h.executor, h.status⟩
  | wind =>
    simp only [Machine.enter, enterWind]
    split
    · exact h
    · exact ⟨h.directory, h.record, h.executor, h.status⟩

theorem transition (h : m.Inline) (next : Mode) : (m.transition next).2.Inline := by
  unfold Machine.transition
  split
  · exact h
  · refine h.leave.andThen fun _ m' h' => h'.save.andThen fun _ m'' h'' => ?_
    exact enter (m := { m''.note _ _ _ _ with mode := next })
      ⟨h''.directory, h''.record, h''.executor, h''.status⟩ next

/-- A period. -/
theorem tick (h : m.Inline) : m.tick.2.Inline := by
  refine h.update.andThen fun next m' h' => ?_
  rcases next with _ | next
  · exact h'
  · exact h'.transition next

theorem shutdown (h : m.Inline) : m.shutdown.2.Inline :=
  (h.transition .stop).andThen fun _ _ h' => h'.save.andThen fun _ _ h'' => h''.note ..

end Inline

/-! ## Commands -/

open Operator

variable {m : Machine R}

theorem oneLine_refusal {reason : String} (h : OneLine reason) : OneLine (refusal reason) :=
  .append (by decide) h

theorem oneLine_ok : OneLine "ok" := by decide

omit [Scalar R] in
theorem oneLine_busy (m : Machine R) : OneLine m.busy := by
  refine oneLine_refusal (.append (.append (by decide) ?_) (by decide))
  cases m.mode <;> decide

theorem oneLine_noRecipe : OneLine (noRecipe (R := R)) :=
  oneLine_refusal (by decide : OneLine "No recipe loaded")

/-- The reply is on one line, and so is what the machine can be told to name after it. -/
structure Answers (r : String × Machine R) : Prop where
  reply : OneLine r.1
  machine : r.2.Inline

/-- What can be told of the outcome is on one line, but for the result. -/
structure Tells {α : Type} (o : Outcome R α) (told : α → Prop) : Prop where
  machine : o.2.Inline
  result : ∀ a, o.1 = .ok a → told a
  error : ∀ e, o.1 = .error e → OneLine e.message

theorem Tells.ok {α : Type} {a : α} {m : Machine R} {told : α → Prop} (h : m.Inline) (ha : told a) :
    Tells (.ok a, m) told where
  machine := h
  result := by
    rintro _ ⟨⟩
    exact ha
  error := nofun

theorem Tells.andThen {α β : Type} {o : Outcome R α} {rest : α → Machine R → Outcome R β}
    {told : α → Prop} {told' : β → Prop} (h : Tells o told)
    (next : ∀ a (m : Machine R), told a → m.Inline → Tells (rest a m) told') :
    Tells (o.andThen rest) told' := by
  obtain ⟨e | a, m⟩ := o
  · refine ⟨h.machine, nofun, ?_⟩
    rintro _ ⟨⟩
    exact h.error e rfl
  · exact next a m (h.result a rfl) h.machine

/-- The command loads a recipe whose calibration is refused, and what is told of it is a text of the
calibration file that is not on one line. -/
def Quotes (m : Machine R) (c : Command R) (reply : String) : Prop :=
  ∃ recipe line e, c = .load recipe line ∧ CalibrationError.QuotesDocument e ∧
    (m.executor.load m.files (m.directory.recipePath recipe) (line.getD 0)).1 =
      .error (.plan (.calibration e)) ∧
    reply = refusal ("Calibration error: " ++ e.message)

namespace Inline

theorem answersStart (h : m.Inline) : Answers m.start := by
  unfold start
  split
  · exact ⟨(by decide : OneLine (refusal "shutting down")), h⟩
  · split
    · exact ⟨m.oneLine_busy, h⟩
    · split
      · exact ⟨oneLine_noRecipe, h⟩
      · split
        · next fault => exact ⟨oneLine_refusal (h.status.fault fault), h⟩
        · split
          · next refused => exact ⟨oneLine_refusal (Executor.oneLine_arm refused), h⟩
          · next armed =>
            exact ⟨oneLine_ok, h.directory, h.record, h.executor.arm armed, h.status⟩

omit [Scalar R] in
theorem answersAsk (h : m.Inline) (request : ManualRequest R) : Answers (m.ask request) := by
  unfold ask
  split
  · exact ⟨m.oneLine_busy, h⟩
  · split
    · exact ⟨(by decide : OneLine (refusal "shutting down")), h⟩
    · exact ⟨oneLine_ok, h.directory, h.record, h.executor, h.status⟩

theorem answersJog [LineScalar R] (h : m.Inline) (target : Location R) (velocity : Option R) :
    Answers (m.jog target velocity) := by
  unfold jog
  split
  · exact ⟨oneLine_refusal (.append (.append (by decide) target.oneLine_text) (by decide)), h⟩
  · split
    · next v _ =>
      exact ⟨oneLine_refusal (.append (.append (by decide) (LineScalar.text v)) (by decide)), h⟩
    · exact h.answersAsk _

theorem answersCalibrate (h : m.Inline) (pin : Pin) : Answers (m.calibrate pin) := by
  unfold calibrate
  split
  · exact ⟨m.oneLine_busy, h⟩
  · split
    · exact ⟨oneLine_noRecipe, h⟩
    · next s session =>
      split
      · exact ⟨oneLine_ok, h.directory, h.record, h.executor, h.status⟩
      · exact ⟨oneLine_refusal (.append (.append (.append (by decide) pin.oneLine_text) (by decide))
          (h.executor.layer s session)), h⟩

theorem tellsSave (h : m.Inline) : Tells m.save fun _ => True := by
  refine ⟨h.save, fun _ _ => trivial, fun e failed => ?_⟩
  obtain ⟨cause, unsaved, rfl⟩ := mapError_eq_error failed
  exact .append (by decide) (RecordStore.oneLine_save h.record unsaved)

theorem tellsAdopt (h : m.Inline) (path : String) (line : Nat) :
    Tells (m.adopt path line) OneLine := by
  unfold adopt
  split
  · exact .ok h oneLine_noRecipe
  · next s session =>
    refine (h.withRecord _).tellsSave.andThen fun _ m' _ h' => .ok (h'.note ..) ?_
    exact .append (.append (.append (.append (by decide) (h.executor.layer s session))
      (by decide)) (oneLine_nat _)) (by decide)

/-- A recipe is loaded in words that are on one line, or it is refused in words of its calibration
that are not. -/
theorem tellsLoad [LineScalar R] (h : m.Inline) (recipe : String) (line : Option Nat) :
    Tells (m.load recipe (line.getD 0)) fun text =>
      OneLine recipe → OneLine text ∨ m.Quotes (.load recipe line) text := by
  obtain ⟨loaded, told⟩ := h.executor.load m.files (m.directory.recipePath recipe) (line.getD 0)
  have quotes (c : CalibrationError) : c.QuotesDocument →
      (m.executor.load m.files (m.directory.recipePath recipe) (line.getD 0)).1 =
        .error (.plan (.calibration c)) →
      m.Quotes (.load recipe line) (refusal ("Calibration error: " ++ c.message)) :=
    fun quotes failed => ⟨recipe, line, c, rfl, quotes, failed, rfl⟩
  have path (name : OneLine recipe) : OneLine (m.directory.recipePath recipe) := by
    unfold DataDirectory.recipePath
    split
    · exact name
    · exact Files.oneLine_join (Files.oneLine_join h.directory (by decide)) name
  unfold Machine.load
  split
  · exact .ok h fun _ => .inl m.oneLine_busy
  · simp only
    generalize m.executor.load m.files (m.directory.recipePath recipe) (line.getD 0) = r
      at loaded told quotes ⊢
    obtain ⟨e | ⟨⟩, x⟩ := r
    · refine .ok ⟨h.directory, h.record, loaded, h.status⟩ fun name => ?_
      rcases told (path name) e rfl with line' | ⟨c, rfl, text⟩
      · exact .inl (oneLine_refusal line')
      · exact .inr (quotes c text rfl)
    · have adopted := tellsAdopt (m := { m with executor := x })
        ⟨h.directory, h.record, loaded, h.status⟩ (m.directory.recipePath recipe) (line.getD 0)
      exact ⟨adopted.machine, fun text ok _ => .inl (adopted.result text ok), adopted.error⟩

end Inline

theorem Answers.tells {r : String × Machine R} (h : Answers r) {told : Reply R → Prop}
    (line : ∀ text, OneLine text → told (.line text)) : Tells (replied r) told :=
  .ok h.machine (line _ h.reply)

/-- A command is answered on one line, unless it loads a recipe whose calibration file has a text in
it that is not. -/
theorem Inline.tellsHandle [LineScalar R] (h : m.Inline) (c : Command R) :
    Tells (m.handle c) fun reply => c.Named → OneLine reply.text ∨ m.Quotes c reply.text := by
  cases c with
  | start => exact h.answersStart.tells fun _ told _ => .inl told
  | jog target velocity => exact (h.answersJog target velocity).tells fun _ told _ => .inl told
  | head side | latch side => exact (h.answersAsk _).tells fun _ told _ => .inl told
  | calibrate pin => exact (h.answersCalibrate pin).tells fun _ told _ => .inl told
  | stop =>
    have answered : Answers
        ("ok", { m with stopRequested := true, startRequested := false }) :=
      ⟨oneLine_ok, h.directory, h.record, h.executor, h.status⟩
    exact answered.tells fun _ told _ => .inl told
  | shutdown =>
    have answered : Answers ("ok shutting down",
        { m with shutdownRequested := true, stopRequested := true, startRequested := false }) :=
      ⟨(by decide : OneLine "ok shutting down"), h.directory, h.record, h.executor, h.status⟩
    exact answered.tells fun _ told _ => .inl told
  | status =>
    exact .ok h fun _ => .inl m.report.oneLine_written
  | load recipe line =>
    refine (h.tellsLoad recipe line).andThen fun text m' told h' => .ok h' fun named => ?_
    exact told (named recipe line rfl)

end Machine

end Winding

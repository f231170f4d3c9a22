import Winding.Proofs.Machine.Handling
import Winding.Proofs.Machine.WindPeriods

/-!
# What is saved

The states in which the record is saved, in order: in a period (`Machine.tickSaves`), by a command
(`Machine.handleSaves`) and by a shutdown (`Machine.shutdownSaves`), also when these fail. Nothing
else writes the file of the record (`Machine.tick_writes`, `Machine.handle_writes`,
`Machine.shutdown_writes`).
-/

namespace Winding

variable {R : Type} [Scalar R]

omit [Scalar R] in
/-- The saves of what comes after an operation, unless it failed. -/
def Outcome.saves {α : Type} (o : Outcome R α) (rest : α → Machine R → List (Machine R)) :
    List (Machine R) :=
  match o with
  | (.ok a, m) => rest a m
  | (.error _, _) => []

namespace Machine

/-! ## Lists of saves -/

/-- Progress is saved when the line is due. -/
def syncSaves (m : Machine R) : List (Machine R) :=
  match m.executor.session, m.executor.committedLine? with
  | some s, some line =>
    let m := m.raiseWound s.layer
    if m.record.recipe.isSome && m.records.isDue line then
      [m.withRecord fun r => { r with line := some line }]
    else []
  | _, _ => []

def finishSaves (m : Machine R) : List (Machine R) :=
  m.syncSaves ++ m.syncProgress.saves fun _ m' =>
    match m'.executor.unload with
    | .error _ => []
    | .ok x => [m'.finishing x]

def windDownSaves (m : Machine R) : List (Machine R) :=
  let (isDrained, x) := m.executor.drain m.queue.isEmpty
  let m := { m with executor := x }
  if isDrained && m.executor.state = .done then m.finishSaves else m.syncSaves

def windOnSaves (m : Machine R) : List (Machine R) :=
  match m.plan m.queue.capacity with
  | (some e, m) => [m.faulting "recipe" e.message]
  | (none, m) => m.syncSaves

def windSaves (m : Machine R) : List (Machine R) :=
  match m.status.fault? with
  | some reason => [m.opened.faulting "plc" reason]
  | none =>
    match m.opened.executor.state with
    | .stopping => m.opened.windDownSaves
    | .done => if m.queue.isEmpty then m.opened.finishSaves else m.opened.syncSaves
    | .idle => []
    | .ready | .emitting | .blocked | .faulted => m.opened.windOnSaves

def manualSaves (m : Machine R) : List (Machine R) :=
  m.status.fault?.toList.map { m with pendingManual := [] }.droppingMotion

def calibrationSaves (m : Machine R) : List (Machine R) :=
  m.status.fault?.toList.map m.droppingMotion

def updateSaves (m : Machine R) : List (Machine R) :=
  match m.mode with
  | .stop => []
  | .manual => m.manualSaves
  | .wind => m.windSaves
  | .calibration => m.calibrationSaves

/-- The record is saved whenever a mode is left. -/
def transitionSaves (m : Machine R) (next : Mode) : List (Machine R) :=
  if next = m.mode then []
  else (if m.mode = .wind then m.syncSaves else []) ++ m.leave.saves fun _ m' => [m']

/-- The states in which a period saves the record. -/
def tickSaves (m : Machine R) : List (Machine R) :=
  m.updateSaves ++ m.update.saves fun next m' =>
    match next with
    | none => []
    | some next => m'.transitionSaves next

/-- The states in which a command saves the record. -/
def handleSaves (m : Machine R) : Operator.Command R → List (Machine R)
  | .load recipe line =>
    if m.mode ≠ .stop then []
    else match m.executor.load m.files (m.directory.recipePath recipe) (line.getD 0) with
      | (.ok (), x) => [m.adopting x (m.directory.recipePath recipe) (line.getD 0)]
      | (.error _, _) => []
  | _ => []

/-- The states in which a shutdown saves the record. -/
def shutdownSaves (m : Machine R) : List (Machine R) :=
  m.transitionSaves .stop ++ (m.transition .stop).saves fun _ m' => [m']

/-! ## Nothing else is written -/

/-- Between the machines, files are written only by notes and by saves in the states of the list. -/
inductive Writes : Machine R → List (Machine R) → Machine R → Prop
  | rest {m m' : Machine R} (files : m'.files = m.files) : Writes m [] m'
  | note (m : Machine R) (source kind message : String) (params : List (String × String)) :
    Writes m [] (m.note source kind message params)
  | save (m : Machine R) : Writes m [m] m.save.2
  | append {m m' m'' : Machine R} {ms ns : List (Machine R)} (first : Writes m ms m')
      (next : Writes m' ns m'') : Writes m (ms ++ ns) m''

variable {m m' m'' : Machine R} {ms ns : List (Machine R)} {α β : Type}

/-- What is written in memory first does not matter. -/
theorem Writes.of_rest (files : m'.files = m.files) (h : Writes m' ms m'') : Writes m ms m'' :=
  .append (.rest files) h

theorem Writes.then_rest (h : Writes m ms m') (files : m''.files = m'.files) : Writes m ms m'' :=
  ms.append_nil ▸ .append h (.rest files)

theorem Writes.andThen {o : Outcome R α} {rest : α → Machine R → Outcome R β}
    {saves : α → Machine R → List (Machine R)} (h : Writes m ms o.2)
    (next : ∀ a (m' : Machine R), Writes m' (saves a m') (rest a m').2) :
    Writes m (ms ++ o.saves saves) (o.andThen rest).2 := by
  obtain ⟨e | a, m'⟩ := o
  · exact ms.append_nil.symm ▸ h
  · exact .append h (next a m')

theorem Writes.as {o : Outcome R α} {b : β} (h : Writes m ms o.2) : Writes m ms (o.as b).2 := by
  rwa [Outcome.as_snd]

theorem Writes.andThen_rest {o : Outcome R α} {rest : α → Machine R → Outcome R β}
    (h : Writes m ms o.2) (next : ∀ a (m' : Machine R), Writes m' [] (rest a m').2) :
    Writes m ms (o.andThen rest).2 := by
  obtain ⟨e | a, m'⟩ := o
  · exact h
  · exact ms.append_nil ▸ .append h (next a m')

/-- The line of a recipe in progress is saved when it is due. -/
theorem updateLine_writes (m : Machine R) (line : Nat) :
    Writes m
      (if m.record.recipe.isSome && m.records.isDue line then
        [m.withRecord fun r => { r with line := some line }]
      else [])
      (m.persisted (m.records.updateLine m.files line)).2 := by
  rw [persisted_updateLine]
  have files : (m.withRecord fun r => { r with line := some line }).files = m.files := rfl
  rcases recipe : m.record.recipe with _ | path
  · exact .rest rfl
  · simp only [Option.isSome_some, Option.isNone_some, Bool.true_and, Bool.false_eq_true, if_false]
    split
    · exact .as (.of_rest files (.save _))
    · exact .rest files

theorem syncProgress_writes (m : Machine R) : Writes m m.syncSaves m.syncProgress.2 := by
  rcases session : m.executor.session with _ | s
  · simp only [syncSaves, syncProgress, session]
    exact .rest rfl
  · obtain ⟨line, committed⟩ : ∃ line, m.executor.committedLine? = some line :=
      ⟨_, by rw [Executor.committedLine?, session]; rfl⟩
    have raised : (m.raiseWound s.layer).executor.committedLine? = some line := committed
    simp only [syncSaves, syncProgress, session, committed, raised]
    have files : (m.raiseWound s.layer).files = m.files := rfl
    exact .as (.of_rest files ((m.raiseWound s.layer).updateLine_writes line))

theorem fault_writes (m : Machine R) (kind message : String) :
    Writes m [m.faulting kind message] (m.fault kind message).2 := by
  rw [fault_eq]
  have files : (m.faulting kind message).files = m.files := by
    unfold faulting
    simp only
    split <;> rfl
  exact .andThen_rest (.of_rest files (.save _)) fun _ m' => .then_rest (.note ..) rfl

theorem motionFault_writes (m : Machine R) (source message : String) :
    Writes m [m.droppingMotion message] (m.motionFault source message).2 := by
  rw [motionFault_eq]
  have files : (m.droppingMotion message).files = m.files := rfl
  exact .andThen_rest (.of_rest files (.save _)) fun _ m' => .then_rest (.note ..) rfl

theorem finishRecipe_writes (m : Machine R) : Writes m m.finishSaves m.finishRecipe.2 := by
  rw [finishRecipe_eq]
  refine m.syncProgress_writes.andThen fun _ m' => ?_
  rcases m'.executor.unload with e | x
  · exact .rest rfl
  · have files : (m'.finishing x).files = m'.files := rfl
    exact .andThen_rest (.of_rest files (.save _)) fun _ m'' => .note ..

theorem windDown_writes (m : Machine R) : Writes m m.windDownSaves m.windDown.2 := by
  unfold windDownSaves windDown
  rcases m.executor.drain m.queue.isEmpty with ⟨isDrained, x⟩
  have files : { m with executor := x }.files = m.files := rfl
  refine .of_rest files ?_
  cases isDrained with
  | false => exact (syncProgress_writes _).as
  | true =>
    simp only [Bool.true_and]
    by_cases done : x.state = .done
    · simp only [done, decide_true, if_true]
      exact (finishRecipe_writes _).as
    · simp only [done, decide_false]
      exact .andThen_rest (syncProgress_writes _) fun _ m' => .note ..

/-- Planning notes pauses. -/
theorem plan_writes (m : Machine R) (count : Nat) : Writes m [] (m.plan count).2 := by
  induction count generalizing m with
  | zero => exact .rest rfl
  | succ count ih =>
    unfold plan
    rcases m.executor.step m.queue with ⟨result, x, q⟩
    have files : (m.withMotion x q).files = m.files := rfl
    refine .of_rest files ?_
    rcases result with e | outcome
    · exact .rest rfl
    · cases outcome with
      | advanced => exact ih _
      | blocked | finished => exact .rest rfl
      | pause => exact .note ..

theorem windOn_writes (m : Machine R) : Writes m m.windOnSaves m.windOn.2 := by
  have planned := m.plan_writes m.queue.capacity
  unfold windOnSaves windOn
  rcases hp : m.plan m.queue.capacity with ⟨_ | e, m'⟩
  · rw [hp] at planned
    exact (Writes.append planned m'.syncProgress_writes).as
  · rw [hp] at planned
    exact (Writes.append planned (m'.fault_writes _ _)).as

theorem updateWind_writes (m : Machine R) : Writes m m.windSaves m.updateWind.2 := by
  have files : m.opened.files = m.files := rfl
  refine .of_rest files ?_
  rw [updateWind_eq, windSaves]
  rcases m.status.fault? with _ | reason
  · rcases m.opened.executor.state with _ | _ | _ | _ | _ | _ | _
    · exact .rest rfl
    · exact m.opened.windOn_writes
    · exact m.opened.windOn_writes
    · exact m.opened.windOn_writes
    · simp only
      split
      · exact m.opened.finishRecipe_writes.as
      · exact m.opened.syncProgress_writes.as
    · exact m.opened.windOn_writes
    · exact m.opened.windDown_writes
  · exact (m.opened.fault_writes _ _).as

theorem carryOut_writes (m : Machine R) (request : ManualRequest R)
    (later : List (ManualRequest R)) : Writes m [] (m.carryOut request later) := by
  unfold carryOut
  split
  · exact .rest rfl
  · split
    · exact .rest rfl
    · exact .rest rfl
    · have files : { m with pendingManual := later }.files = m.files := rfl
      exact .of_rest files (.then_rest (.note ..) rfl)

theorem updateManual_writes (m : Machine R) : Writes m m.manualSaves m.updateManual.2 := by
  unfold updateManual manualSaves
  rcases m.status.fault? with _ | reason
  · have files : (if m.stopRequested then { m with pendingManual := [] } else m).files = m.files := by
      split <;> rfl
    refine .of_rest files ?_
    simp only
    generalize (if m.stopRequested then { m with pendingManual := [] } else m) = m
    rcases m.pendingManual with _ | ⟨request, later⟩
    · exact .rest rfl
    · exact m.carryOut_writes request later
  · have files : { m with pendingManual := [] }.files = m.files := rfl
    exact .of_rest files (motionFault_writes _ _ _).as

theorem updateCalibration_writes (m : Machine R) :
    Writes m m.calibrationSaves m.updateCalibration.2 := by
  unfold updateCalibration calibrationSaves
  rcases m.status.fault? with _ | reason
  · rcases m.visit with _ | pin | pin
    · exact .rest rfl
    · simp only
      split
      · exact .note ..
      · unfold visitPin
        split
        · exact .rest rfl
        · split <;> exact .rest rfl
    · simp only
      split
      · exact .note ..
      · exact .rest rfl
  · exact (m.motionFault_writes _ _).as

theorem updateStop_writes (m : Machine R) : Writes m [] m.updateStop.2 := by
  have files : m.updateStop.2.files = m.files := by
    unfold updateStop
    simp only
    split
    · rfl
    · split
      · rfl
      · split
        · rfl
        · split <;> rfl
  exact .rest files

theorem enter_writes (m : Machine R) (mode : Mode) : Writes m [] (m.enter mode) := by
  cases mode with
  | stop | manual | calibration => exact .rest rfl
  | wind =>
    simp only [enter, enterWind]
    split
    · exact .rest rfl
    · next s _ =>
      have files : { m with
        woundBase := m.record.length s.layer - m.executor.committedWire
        lastError := none }.files = m.files := rfl
      exact .of_rest files (.note ..)

theorem leave_writes (m : Machine R) :
    Writes m (if m.mode = .wind then m.syncSaves else []) m.leave.2 := by
  unfold leave
  rcases m.mode with _ | _ | _ | _
  · exact .rest rfl
  · exact .rest rfl
  · exact m.syncProgress_writes
  · exact .rest rfl

theorem transition_writes (m : Machine R) (next : Mode) :
    Writes m (m.transitionSaves next) (m.transition next).2 := by
  unfold transitionSaves transition
  split
  · exact .rest rfl
  · refine m.leave_writes.andThen fun _ m' => .andThen_rest (.save m') fun _ m'' => ?_
    generalize noted : m''.note "machine" "mode" (m''.mode.text ++ " -> " ++ next.text) [] = m₁
    have note : Writes m'' [] m₁ := noted ▸ .note ..
    have files : { m₁ with mode := next }.files = m₁.files := rfl
    exact .append note (.of_rest files (enter_writes _ next))

/-- In a period the record is saved in the states of the list. -/
theorem tick_writes (m : Machine R) : Writes m m.tickSaves m.tick.2 := by
  have updated : Writes m m.updateSaves m.update.2 := by
    rw [updateSaves, update]
    rcases m.mode with _ | _ | _ | _
    · exact m.updateStop_writes
    · exact m.updateManual_writes
    · exact m.updateWind_writes
    · exact m.updateCalibration_writes
  refine updated.andThen fun next m' => ?_
  rcases next with _ | next
  · exact .rest rfl
  · exact m'.transition_writes next

theorem load_writes (m : Machine R) (recipe : String) (line : Option Nat) :
    Writes m (m.handleSaves (.load recipe line)) (m.load recipe (line.getD 0)).2 := by
  by_cases mode : m.mode = .stop
  · rcases hl : m.executor.load m.files (m.directory.recipePath recipe) (line.getD 0) with
      ⟨e | ⟨⟩, x⟩
    · have files : { m with executor := x }.files = m.files := rfl
      rw [load, if_neg (not_not.mpr mode), handleSaves, if_neg (not_not.mpr mode)]
      simp only [hl]
      exact .of_rest files (.note ..)
    · obtain ⟨library, s, -, -, -, rfl⟩ := Executor.load_eq_ok hl
      rw [load_eq_adopting mode hl rfl, handleSaves, if_neg (not_not.mpr mode)]
      simp only [hl]
      have files : (m.adopting ({ m.executor with library := library }.begin s)
        (m.directory.recipePath recipe) (line.getD 0)).files = m.files := rfl
      exact .andThen_rest (.of_rest files (.save _)) fun _ m' => .note ..
  · rw [load, if_pos mode, handleSaves, if_pos mode]
    exact .rest rfl

omit [Scalar R] in
theorem ask_files (m : Machine R) (request : ManualRequest R) :
    (m.ask request).2.files = m.files := by
  unfold ask
  split
  · rfl
  · split <;> rfl

/-- By a command the record is saved in the states of the list. -/
theorem handle_writes (m : Machine R) (c : Operator.Command R) :
    Writes m (m.handleSaves c) (m.handle c).2 := by
  have quiet (files : (m.handle c).2.files = m.files) : Writes m [] (m.handle c).2 := .rest files
  cases c with
  | start =>
    refine quiet ?_
    simp only [handle, replied, start]
    split
    · rfl
    · split
      · rfl
      · split
        · rfl
        · split
          · rfl
          · split <;> rfl
  | stop | status | shutdown => exact quiet rfl
  | jog target velocity =>
    refine quiet ?_
    simp only [handle, replied, jog]
    split
    · rfl
    · split
      · rfl
      · exact m.ask_files _
  | head side => exact quiet (m.ask_files _)
  | latch side => exact quiet (m.ask_files _)
  | load recipe line =>
    exact .andThen_rest (m.load_writes recipe line) fun _ m' => .rest rfl
  | calibrate pin =>
    refine quiet ?_
    simp only [handle, replied, calibrate]
    split
    · rfl
    · split
      · rfl
      · split <;> rfl

/-- By a shutdown the record is saved in the states of the list. -/
theorem shutdown_writes (m : Machine R) : Writes m m.shutdownSaves m.shutdown.2 := by
  refine (m.transition_writes .stop).andThen fun _ m' => ?_
  exact .andThen_rest (.save m') fun _ m'' => .note ..

end Machine

end Winding

import Winding.Proofs.Execution.Wire
import Winding.Proofs.Files.Beside
import Winding.Proofs.Machine.Dates
import Winding.Proofs.Record.RoundTrip

/-!
# The record and its file

Whatever the machine does, its record stays well formed, and the file of the record is absent or was
written from such a record (`Machine.Archives`). While the machine is stopped the file holds the
record itself (`Machine.Rests`), which periods (`Machine.Rests.tick`) and commands
(`Machine.Rests.handle`) keep.
-/

namespace Winding

variable {R : Type} [Scalar R]

/-! ## Lines that can be recorded -/

omit [Scalar R] in
/-- The first line that has not run can be recorded. -/
def Executor.Counted (x : Executor R) : Prop :=
  ∀ line ∈ x.committedLine?, line < ApaRecord.lineLimit

namespace Course.Coherent

variable {c : Course R} {s : Session R}

omit [Scalar R] in
theorem counted (h : c.Coherent s) (short : s.lines.length < ApaRecord.lineLimit) :
    c.executor.Counted := by
  intro line committed
  have le := h.committed_bounds.2
  rw [Course.committed, show c.executor.committedLine? = some line from committed] at le
  exact Nat.lt_of_le_of_lt (le.trans h.cursor_le) short

/-- Lines can be recorded all along a course. -/
theorem counted_run (h : c.Coherent s) (short : s.lines.length < ApaRecord.lineLimit)
    (ms : List Move) : (c.run ms).executor.Counted := by
  obtain ⟨i, coherent⟩ := h.run ms
  exact coherent.counted short

end Course.Coherent

/-! ## What is kept -/

/-- The content of the file that a record is written to. -/
def ApaRecord.content (r : ApaRecord R) : ByteArray := r.text.toUTF8

/-- The content was written from a well-formed record. -/
def IsRecordFile (R : Type) [Scalar R] (content : ByteArray) : Prop :=
  ∃ r : ApaRecord R, r.WellFormed ∧ content = r.content

/-- The store is for the file at a path. Its record is well formed, the clock shows a time, and the
file is absent, or has a content with this property and is not the open journal. -/
structure RecordStore.KeptIn (s : RecordStore R) (path : String) (files : FileStore)
    (journal : Nat) (now : Timestamp) (P : ByteArray → Prop) : Prop where
  place : s.path = path
  record : s.record.WellFormed
  now : now.IsShown
  file : files.Holds path journal P

namespace Machine

/-- The machine keeps its record in the file at a path. -/
def ArchivesIn (m : Machine R) (path : String) (P : ByteArray → Prop) : Prop :=
  m.records.KeptIn path m.files m.journal.serial m.now P

/-- The file of the record was written from a well-formed record. -/
def Archives (m : Machine R) (path : String) : Prop := m.ArchivesIn path (IsRecordFile R)

/-- The file of the record holds the record. -/
def Filed (m : Machine R) (path : String) : Prop := m.ArchivesIn path (· = m.record.content)

/-- While the machine is stopped, the file of the record holds the record. -/
def Rests (m : Machine R) (path : String) : Prop :=
  m.Archives path ∧ (m.mode = .stop → m.Filed path)

variable {m m' : Machine R} {path : String} {P : ByteArray → Prop}

theorem Filed.archives (h : m.Filed path) : m.Archives path :=
  ⟨h.place, h.record, h.now, h.file.mono fun _ e => ⟨m.record, h.record, e⟩⟩

theorem Filed.rests (h : m.Filed path) : m.Rests path := ⟨h.archives, fun _ => h⟩

theorem ArchivesIn.note (h : m.ArchivesIn path P) (source kind message : String)
    (params : List (String × String)) : (m.note source kind message params).ArchivesIn path P :=
  ⟨h.place, h.record, h.now, h.file.append _⟩

theorem ArchivesIn.withRecord (h : m.ArchivesIn path P) {change : ApaRecord R → ApaRecord R}
    (wellFormed : (change m.record).WellFormed) : (m.withRecord change).ArchivesIn path P :=
  ⟨h.place, wellFormed, h.now, h.file⟩

theorem ArchivesIn.raiseWound [LegibleScalar R] (h : m.ArchivesIn path P) (layer : String) :
    (m.raiseWound layer).ArchivesIn path P :=
  h.withRecord (h.record.raise layer _)

/-- Others may remove the file of the record, and change other files. -/
theorem ArchivesIn.spared (h : m.ArchivesIn path P) {files : FileStore} {now : Timestamp}
    (shown : now.IsShown) (next : m.files.next ≤ files.next)
    (same : ∀ content serial, files.find m.records.path = .ok (.file content serial) →
      m.files.find m.records.path = .ok (.file content serial)) :
    ({ m with files := files, now := now } : Machine R).ArchivesIn path P := by
  have place : m.records.path = path := h.place
  rw [place] at same
  exact ⟨h.place, h.record, shown, h.file.spared next same⟩

/-- After a save the file holds the record. -/
theorem ArchivesIn.save (h : m.ArchivesIn path P) (saved : m.save = (.ok (), m')) :
    m'.Filed path := by
  have same : m.records.path = path := h.place
  unfold Machine.save persisted RecordStore.save at saved
  rcases written : m.files.write m.records.path m.records.record.text.toUTF8 with
    ⟨files, e | ⟨⟨⟩⟩⟩
  · simp only [written] at saved
    cases saved
  · simp only [written] at saved
    cases saved
    rw [same] at written
    exact ⟨same, h.record, h.now, h.file.write written⟩

/-! ## Winding -/

section Wind

variable [LegibleScalar R]

omit [LegibleScalar R] in
theorem Archives.updateLine (h : m.Archives path) {line : Nat}
    (short : line < ApaRecord.lineLimit) {b : Bool}
    (updated : m.persisted (m.records.updateLine m.files line) = (.ok b, m')) :
    m'.Archives path := by
  have moved : (m.withRecord fun r => { r with line := some line }).Archives path :=
    h.withRecord (h.record.atLine short)
  rw [persisted_updateLine] at updated
  split at updated
  · cases updated
    exact h
  · simp only at updated
    split at updated
    · obtain ⟨⟨⟩, saved, -⟩ := Outcome.as_eq_ok updated
      exact (moved.save saved).archives
    · cases updated
      exact moved

theorem Archives.syncProgress (h : m.Archives path) (counted : m.executor.Counted)
    (synced : m.syncProgress = (.ok (), m')) : m'.Archives path := by
  unfold Machine.syncProgress at synced
  split at synced
  · cases synced
    exact h
  · next s _ =>
    simp only at synced
    split at synced
    · cases synced
      exact h.raiseWound s.layer
    · next line committed =>
      obtain ⟨_, updated, -⟩ := Outcome.as_eq_ok synced
      have raised : (m.raiseWound s.layer).Archives path := h.raiseWound s.layer
      exact raised.updateLine (counted line committed) updated

omit [LegibleScalar R] in
theorem rewound_wellFormed {r : ApaRecord R} (h : r.WellFormed) {line : Option Nat}
    (short : ∀ l ∈ line, l < ApaRecord.lineLimit) : (rewound line r).WellFormed := by
  unfold rewound
  rcases line with _ | line
  · exact h
  · split
    · exact h.atLine (short line rfl)
    · exact h

theorem Archives.fault (h : m.Archives path) (counted : m.course.fault.executor.Counted)
    {kind message : String} (failed : m.fault kind message = (.ok (), m')) : m'.Archives path := by
  have faulting : (m.faulting kind message).Archives path := by
    unfold faulting
    simp only
    split
    · next s _ =>
      have raised : ((m.withCourse m.course.fault).raiseWound s.layer).Archives path :=
        ArchivesIn.raiseWound (m := m.withCourse m.course.fault) h s.layer
      exact raised.withRecord
        ((rewound_wellFormed raised.record counted).withFault h.now _ _ counted)
    · exact ArchivesIn.withRecord (m := m.withCourse m.course.fault) h
        ((rewound_wellFormed h.record counted).withFault h.now _ _ counted)
  rw [fault_eq] at failed
  obtain ⟨_, m₁, saved, noted⟩ := Outcome.andThen_eq_ok failed
  cases noted
  exact (faulting.save saved).archives.note ..

theorem Archives.finishRecipe (h : m.Archives path) (counted : m.executor.Counted)
    (finished : m.finishRecipe = (.ok (), m')) : m'.Archives path := by
  rw [finishRecipe_eq] at finished
  obtain ⟨_, m₁, synced, rest⟩ := Outcome.andThen_eq_ok finished
  have kept := h.syncProgress counted synced
  split at rest
  · cases rest
  · next x _ =>
    obtain ⟨_, m₂, saved, noted⟩ := Outcome.andThen_eq_ok rest
    have finishing : (m₁.finishing x).Archives path :=
      ArchivesIn.withRecord (m := { m₁ with executor := x }) kept kept.record.finished
    cases noted
    exact (finishing.save saved).archives.note ..

theorem Archives.windDown (h : m.Archives path)
    (counted : (m.course.after .drain).executor.Counted) {next : Option Mode}
    (wound : m.windDown = (.ok next, m')) : m'.Archives path := by
  have drained :
      ({ m with executor := (m.executor.drain m.queue.isEmpty).2 } : Machine R).Archives path := h
  unfold Machine.windDown at wound
  simp only at wound
  split at wound
  · obtain ⟨_, synced, -⟩ := Outcome.as_eq_ok wound
    exact drained.syncProgress counted synced
  · split at wound
    · obtain ⟨_, finished, -⟩ := Outcome.as_eq_ok wound
      exact drained.finishRecipe counted finished
    · obtain ⟨_, m₁, synced, noted⟩ := Outcome.andThen_eq_ok wound
      cases noted
      exact (drained.syncProgress counted synced).note ..

omit [LegibleScalar R] in
/-- Planning writes only in the journal. -/
theorem ArchivesIn.plan (h : m.ArchivesIn path P) (count : Nat) :
    (m.plan count).2.ArchivesIn path P := by
  induction count generalizing m with
  | zero => exact h
  | succ count ih =>
    unfold Machine.plan
    rcases m.executor.step m.queue with ⟨e | outcome, x, q⟩
    · exact h
    · have stepped : (m.withMotion x q).ArchivesIn path P := h
      cases outcome with
      | advanced => exact ih stepped
      | blocked | finished => exact stepped
      | pause => exact stepped.note ..

theorem Archives.windOn (h : m.Archives path) {s : Session R} (coherent : m.course.Coherent s)
    (short : s.lines.length < ApaRecord.lineLimit) {next : Option Mode}
    (wound : m.windOn = (.ok next, m')) : m'.Archives path := by
  have planned : (m.plan m.queue.capacity).2.Archives path := ArchivesIn.plan h _
  have course := m.plan_course m.queue.capacity
  -- A plan that is refused is a course that ends in a fault, which takes lines back.
  have counted := coherent.counted_run short (m.course.planMoves m.queue.capacity)
  have faulted := coherent.counted_run short (m.course.planMoves m.queue.capacity ++ [.fault])
  rw [Course.run_append] at faulted
  rw [← course] at counted faulted
  unfold Machine.windOn at wound
  split at wound
  · next e m₁ hp =>
    rw [hp] at planned faulted
    obtain ⟨_, failed, -⟩ := Outcome.as_eq_ok wound
    exact planned.fault faulted failed
  · next m₁ hp =>
    rw [hp] at planned counted
    obtain ⟨_, synced, -⟩ := Outcome.as_eq_ok wound
    exact planned.syncProgress counted synced

theorem Archives.updateWind (h : m.Archives path) {s : Session R} (coherent : m.course.Coherent s)
    (short : s.lines.length < ApaRecord.lineLimit) {next : Option Mode}
    (wound : m.updateWind = (.ok next, m')) : m'.Archives path := by
  have opened : m.opened.Archives path := h
  obtain ⟨i, coherent⟩ := coherent.run m.openingMoves
  have coherent : m.opened.course.Coherent { s with cursor := i } := coherent
  have short : ({ s with cursor := i } : Session R).lines.length < ApaRecord.lineLimit := short
  rw [updateWind_eq] at wound
  split at wound
  · obtain ⟨_, failed, -⟩ := Outcome.as_eq_ok wound
    exact opened.fault (coherent.counted_run short [.fault]) failed
  · split at wound
    · exact opened.windDown (coherent.counted_run short [.drain]) wound
    · split at wound
      · obtain ⟨_, finished, -⟩ := Outcome.as_eq_ok wound
        exact opened.finishRecipe (coherent.counted short) finished
      · obtain ⟨_, synced, -⟩ := Outcome.as_eq_ok wound
        exact opened.syncProgress (coherent.counted short) synced
    · cases wound
      exact opened
    all_goals exact opened.windOn coherent short wound

end Wind

/-! ## Other modes -/

theorem Archives.motionFault (h : m.Archives path) {source message : String}
    (failed : m.motionFault source message = (.ok (), m')) : m'.Archives path := by
  have dropped : (m.droppingMotion message).Archives path :=
    ArchivesIn.withRecord (m := m.withMotion _ _) h (h.record.withFault h.now _ _ nofun)
  rw [motionFault_eq] at failed
  obtain ⟨_, m₁, saved, noted⟩ := Outcome.andThen_eq_ok failed
  cases noted
  exact (dropped.save saved).archives.note ..

theorem ArchivesIn.carryOut (h : m.ArchivesIn path P) (request : ManualRequest R)
    (later : List (ManualRequest R)) : (m.carryOut request later).ArchivesIn path P := by
  unfold Machine.carryOut
  split
  · exact h
  · split
    · exact h
    · exact h
    · exact ArchivesIn.note (m := { m with pendingManual := later }) h ..

theorem Archives.updateManual (h : m.Archives path) {next : Option Mode}
    (updated : m.updateManual = (.ok next, m')) : m'.Archives path := by
  unfold Machine.updateManual at updated
  split at updated
  · obtain ⟨_, failed, -⟩ := Outcome.as_eq_ok updated
    exact Archives.motionFault (m := { m with pendingManual := [] }) h failed
  · have asked : (if m.stopRequested then { m with pendingManual := [] } else m).Archives path := by
      split <;> exact h
    simp only at updated
    split at updated
    · cases updated
      exact ArchivesIn.carryOut asked _ _
    · cases updated
      exact asked

theorem Archives.updateCalibration (h : m.Archives path) {next : Option Mode}
    (updated : m.updateCalibration = (.ok next, m')) : m'.Archives path := by
  unfold Machine.updateCalibration at updated
  split at updated
  · obtain ⟨_, failed, -⟩ := Outcome.as_eq_ok updated
    exact h.motionFault failed
  · split at updated
    · cases updated
      exact h
    · split at updated
      · cases updated
        exact h.note ..
      · unfold visitPin at updated
        split at updated
        · cases updated
          exact h
        · split at updated
          · cases updated
            exact h
          · cases updated
            exact h
    · split at updated
      · cases updated
        exact h.note ..
      · cases updated
        exact h

theorem Filed.updateStop (h : m.Filed path) : m.updateStop.2.Filed path := by
  unfold Machine.updateStop
  simp only
  split
  · exact h
  · split
    · exact h
    · split
      · exact h
      · split <;> exact h

/-! ## Changing modes -/

section Modes

variable [LegibleScalar R]

theorem Archives.leave (h : m.Archives path) (counted : m.mode = .wind → m.executor.Counted)
    (left : m.leave = (.ok (), m')) : m'.Archives path := by
  unfold Machine.leave at left
  split at left
  · cases left
    exact h
  · cases left
    exact h
  · next wind => exact h.syncProgress (counted wind) left
  · cases left
    exact h

omit [LegibleScalar R] in
theorem ArchivesIn.enter (h : m.ArchivesIn path P) (mode : Mode) :
    (m.enter mode).ArchivesIn path P := by
  cases mode with
  | stop | manual | calibration => exact h
  | wind =>
    simp only [Machine.enter, enterWind]
    split
    · exact h
    · exact ArchivesIn.note (m := { m with woundBase := _, lastError := none }) h ..

omit [LegibleScalar R] in
theorem enter_record (m : Machine R) (mode : Mode) : (m.enter mode).record = m.record := by
  cases mode with
  | stop | manual | calibration => rfl
  | wind =>
    simp only [Machine.enter, enterWind]
    split <;> rfl

/-- Another mode is entered with the record in its file. -/
theorem Archives.transition (h : m.Archives path)
    (counted : m.mode = .wind → m.executor.Counted) {next : Mode}
    (ne : next ≠ m.mode) (gone : m.transition next = (.ok (), m')) : m'.Filed path := by
  rw [Machine.transition, if_neg ne] at gone
  obtain ⟨_, m₁, left, gone⟩ := Outcome.andThen_eq_ok gone
  obtain ⟨_, m₂, saved, gone⟩ := Outcome.andThen_eq_ok gone
  have filed := (h.leave counted left).save saved
  cases gone
  have noted := filed.note "machine" "mode" (m₂.mode.text ++ " -> " ++ next.text) []
  have entered :=
    ArchivesIn.enter (m := { m₂.note "machine" "mode" _ [] with mode := next }) noted next
  rw [Filed, enter_record]
  exact entered

theorem Rests.goesOver (h : m.Rests path) (counted : m.mode = .wind → m.executor.Counted)
    {next : Option Mode} (goes : m.GoesOver next m') : m'.Rests path := by
  rcases next with _ | next
  · obtain rfl : m' = m := goes
    exact h
  · have gone : m.transition next = (.ok (), m') := goes
    by_cases same : next = m.mode
    · rw [Machine.transition, if_pos same] at gone
      cases gone
      exact h
    · exact (h.1.transition counted same gone).rests

/-- A period keeps the record and its file, and the record is in its file when the machine stops. -/
theorem Rests.tick (h : m.Rests path)
    (winds : m.mode = .wind → ∃ s, m.course.Coherent s ∧ s.lines.length < ApaRecord.lineLimit)
    (ticked : m.tick = (.ok (), m')) : m'.Rests path := by
  obtain ⟨kept, filed⟩ := h
  obtain ⟨next, m₁, updated, goes⟩ := tick_eq_ok ticked
  have elsewhere (mode : m₁.mode ≠ .wind) (h : m₁.Rests path) : m'.Rests path :=
    h.goesOver (fun wind => absurd wind mode) goes
  rcases mode : m.mode with _ | _ | _ | _
  · have update : m.update = m.updateStop := by rw [update, mode]
    have stopped := (filed mode).updateStop
    have stays := m.updateStop_stays.mode
    rw [update] at updated
    rw [updated, mode] at stays
    rw [updated] at stopped
    exact elsewhere (fun wind => by cases stays.symm.trans wind) stopped.rests
  · have update : m.update = m.updateManual := by rw [update, mode]
    have stays := m.updateManual_stays.mode
    rw [update] at updated
    rw [updated, mode] at stays
    refine elsewhere (fun wind => ?_) ⟨kept.updateManual updated, fun stop => ?_⟩
    · cases stays.symm.trans wind
    · cases stays.symm.trans stop
  · have update : m.update = m.updateWind := by rw [update, mode]
    obtain ⟨s, coherent, short⟩ := winds mode
    have tracked := m.updateWind_tracked
    rw [update] at updated
    rw [updated] at tracked
    have stays : m₁.mode = .wind := tracked.mode.trans mode
    have wound : m₁.Rests path :=
      ⟨kept.updateWind coherent short updated, fun stop => by cases stays.symm.trans stop⟩
    refine wound.goesOver (fun _ => ?_) goes
    rcases tracked.result with forgets | tracks
    · intro line committed
      rw [Executor.committedLine?, forgets.session] at committed
      cases committed
    · rw [tracks.executor]
      exact coherent.counted_run short m.windMoves
  · have update : m.update = m.updateCalibration := by rw [update, mode]
    have stays := m.updateCalibration_stays.mode
    rw [update] at updated
    rw [updated, mode] at stays
    refine elsewhere (fun wind => ?_) ⟨kept.updateCalibration updated, fun stop => ?_⟩
    · cases stays.symm.trans wind
    · cases stays.symm.trans stop

end Modes

/-! ## Commands -/

open Operator

theorem Rests.load (h : m.Rests path) {recipe : String} {line : Nat}
    (short : m.mode = .stop → ∀ x s,
      m.executor.load m.files (m.directory.recipePath recipe) line = (.ok (), x) →
      x.session = some s → s.lines.length < ApaRecord.lineLimit) {reply : String}
    (loaded : m.load recipe line = (.ok reply, m')) : m'.Rests path := by
  by_cases mode : m.mode = .stop
  · rcases hl : m.executor.load m.files (m.directory.recipePath recipe) line with ⟨e | ⟨⟩, x⟩
    · rw [Machine.load, if_neg (not_not.mpr mode)] at loaded
      simp only [hl] at loaded
      cases loaded
      have noted : ({ m with executor := x }.note "machine" "load_failed" e.message
          [("recipe", m.directory.recipePath recipe)]).Filed path :=
        ArchivesIn.note (m := { m with executor := x }) (h.2 mode) ..
      exact noted.rests
    · obtain ⟨library, s, -, -, le, rfl⟩ := Executor.load_eq_ok hl
      have short := Nat.lt_of_le_of_lt le (short mode _ s hl rfl)
      rw [load_eq_adopting mode hl rfl] at loaded
      obtain ⟨_, m₁, saved, loaded⟩ := Outcome.andThen_eq_ok loaded
      have adopting : (m.adopting ({ m.executor with library := library }.begin s)
          (m.directory.recipePath recipe) line).Archives path :=
        ArchivesIn.withRecord (m := { m with executor := _ }) h.1 (h.1.record.withRecipe _ short)
      have noted : (m₁.note "machine" "load"
          ("recipe " ++ m.directory.recipePath recipe ++ " loaded")
          [("layer", s.layer), ("line", toString line)]).Filed path := (adopting.save saved).note ..
      cases loaded
      exact noted.rests
  · rw [Machine.load, if_pos mode] at loaded
    cases loaded
    exact h

theorem Rests.ask (h : m.Rests path) (request : ManualRequest R) :
    (m.ask request).2.Rests path := by
  unfold Machine.ask
  split
  · exact h
  · split
    · exact h
    · exact h

/-- A command leaves the record and its file as they are, or loads a recipe and saves the record. -/
theorem Rests.handle (h : m.Rests path) {c : Command R}
    (short : ∀ s, m.loads? c = some s → s.lines.length < ApaRecord.lineLimit) {reply : Reply R}
    (handled : m.handle c = (.ok reply, m')) : m'.Rests path := by
  cases c with
  | start =>
    cases handled
    unfold start
    split
    · exact h
    · split
      · exact h
      · split
        · exact h
        · split
          · exact h
          · split <;> exact h
  | stop | status | shutdown =>
    cases handled
    exact h
  | jog target velocity =>
    cases handled
    unfold jog
    split
    · exact h
    · split
      · exact h
      · exact h.ask _
  | head side =>
    cases handled
    exact h.ask _
  | latch side =>
    cases handled
    exact h.ask _
  | load recipe line =>
    obtain ⟨text, m₁, loaded, handled⟩ := Outcome.andThen_eq_ok handled
    cases handled
    refine h.load (fun mode x s hl session => short s ?_) loaded
    rw [loads?, if_neg (not_not.mpr mode)]
    simp only [hl]
    exact session
  | calibrate pin =>
    cases handled
    unfold calibrate
    split
    · exact h
    · split
      · exact h
      · split <;> exact h

end Machine

end Winding

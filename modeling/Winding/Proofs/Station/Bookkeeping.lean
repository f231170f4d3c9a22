import Winding.Proofs.Execution.Rewind
import Winding.Proofs.Machine.Keeping
import Winding.Proofs.Machine.Resumption
import Winding.Proofs.Station.Conservation
import Winding.Proofs.Station.Sessions

/-!
# The record at rest

The recipe in progress is that of the session, and outside winding its line is the next line of the
session (`Machine.InStep`). With what is kept in the file of the record, this holds in every run
(`Station.Run.books`): whenever the machine is stopped, the session, the record and the file
agree (`Station.Run.record_at_rest`).
-/

namespace Winding

variable {σ R : Type} [Scalar R]

/-! ## The session and the record -/

theorem Executor.load_path {x x' : Executor R} {files : FileStore} {path : String} {start : Nat}
    (h : x.load files path start = (.ok (), x')) {s : Session R} (session : x'.session = some s) :
    s.path = some path := by
  unfold load at h
  split at h
  · cases h
  · split at h
    · cases h
    · unfold install at h
      split at h
      · cases h
      · split at h
        · cases h
        · simp only at h
          split at h
          · cases h
          · split at h
            · cases h
            · cases h
              cases session
              rfl

namespace Machine

variable {m m' : Machine R} {s s' : Session R} {path : String}

omit [Scalar R] in
/-- The recipe in progress is that of the session, and outside winding its line is the next one. -/
structure InStep (m : Machine R) (s : Session R) : Prop where
  path : s.path.isSome
  recipe : m.record.recipe = s.path
  line : m.mode ≠ .wind → m.record.line = some s.cursor

omit [Scalar R] in
theorem InStep.same (h : m.InStep s) (progress : m.record.SameProgress m'.record)
    (mode : m'.mode ≠ .wind → m.mode ≠ .wind) : m'.InStep s := by
  obtain ⟨-, recipe, line, -⟩ := progress
  exact ⟨h.path, recipe.trans h.recipe, fun stays => line.trans (h.line (mode stays))⟩

theorem synced_line {line : Nat} (committed : m.executor.committedLine? = some line)
    {r : ApaRecord R} (recipe : r.recipe.isSome) : (m.synced r).line = some line := by
  obtain ⟨s, session, -⟩ := Option.map_eq_some_iff.mp committed
  rw [synced_eq session committed recipe]

theorem updates_line {line : Nat} (committed : m.executor.committedLine? = some line)
    {r r' : ApaRecord R} (recipe : r.recipe.isSome) (updates : r.Updates m.synced r') :
    r'.line = some line := by
  cases updates with
  | once before after =>
    obtain ⟨-, same, -⟩ := before
    exact after.2.2.1.trans (synced_line committed (same ▸ recipe))
  | again updates after =>
    have same := updates.keeps (f := ApaRecord.recipe) (fun _ _ same => same.2.1) m.synced_recipe
    exact after.2.2.1.trans (synced_line committed (same ▸ recipe))

theorem ne_complete_of_mem_closingMoves {move : Move} (h : move ∈ m.closingMoves) (seq : Nat) :
    move ≠ .complete seq := by
  unfold closingMoves at h
  split at h
  · rw [List.mem_singleton.mp h]
    nofun
  · split at h
    · rw [List.mem_singleton.mp h]
      nofun
    · cases h
    · cases h
    all_goals
      rcases List.mem_append.mp h with step | fault
      · rw [Course.eq_step_of_mem_planMoves step]
        nofun
      · split at fault
        · rw [List.mem_singleton.mp fault]
          nofun
        · cases fault

/-- Where nothing is queued after a period of winding, no line is held to be in flight. -/
theorem windCourse_settled (m : Machine R) : m.windCourse.Settled := by
  have opened : m.opened.course.Settled := by
    have settled := (m.course.after (.spend m.periodMillis)).settle_settled
    unfold opened openingMoves
    split
    · exact settled.after (m := .requestStop) nofun
    · exact settled
  rw [windCourse_eq]
  exact opened.run fun seq h => ne_complete_of_mem_closingMoves h seq rfl

/-- A period of winding keeps the record in step, and brings it to the next line when it ends. -/
theorem tick_wind_inStep (h : ∀ s, m.executor.session = some s → m.InStep s)
    (mode : m.mode = .wind) (state : m.executor.state ≠ .idle) (ticked : m.tick = (.ok (), m'))
    (session' : m'.executor.session = some s') : m'.InStep s' := by
  have wound (session : m.windCourse.executor.session = some s') {r : ApaRecord R}
      (updates : m.record.Updates (m.withCourse m.windCourse).synced r) :
      s'.path.isSome ∧ r.recipe = s'.path := by
    obtain ⟨s, before, same⟩ := Course.run_session session
    have path : s'.path = s.path := by rw [same]
    have recipe := updates.keeps (f := ApaRecord.recipe) (fun _ _ same => same.2.1)
      (synced_recipe _)
    exact ⟨path ▸ (h s before).path, (recipe.trans (h s before).recipe).trans path.symm⟩
  rcases tick_wind mode ticked with
    ⟨-, records, files, rfl, updates⟩ | ⟨error, empty, records, files, rfl, updates⟩ |
    ⟨-, -, -, records, files, -, rfl, -⟩ | idle
  · obtain ⟨path, recipe⟩ := wound session' updates
    exact ⟨path, recipe, fun stays => absurd mode stays⟩
  · obtain ⟨path, recipe⟩ := wound session' updates
    -- No line is in flight when winding ends, so that the next line is the first that has not run.
    have settled : m.windCourse.executor.inFlight = [] :=
      m.windCourse_settled (by rw [empty, Queue.motion_nil])
    have committed : m.windCourse.executor.committedLine? = some s'.cursor := by
      have wound : m.windCourse.executor.session = some s' := session'
      rw [Executor.committedLine?, wound, settled]
      rfl
    obtain ⟨s, before, -⟩ := Course.run_session (c := m.course) session'
    have progress : m.record.recipe.isSome := (h s before).recipe ▸ (h s before).path
    exact ⟨path, recipe, fun _ =>
      updates_line (m := m.withCourse m.windCourse) committed progress updates⟩
  · cases session'
  · exact absurd idle state

/-- A period keeps the record in step. -/
theorem tick_inStep (h : ∀ s, m.executor.session = some s → m.InStep s)
    (orderly : m.Orderly) (ticked : m.tick = (.ok (), m'))
    (session' : m'.executor.session = some s') : m'.InStep s' := by
  by_cases mode : m.mode = .wind
  · exact tick_wind_inStep h mode (orderly.wind mode).2 ticked session'
  · have same := (tick_goesOn mode).2.1
    rw [ticked] at same
    exact (h s' (same.session.symm.trans session')).same same.progress fun _ => mode

/-- A command keeps the record in step, or brings it to a session that is loaded. -/
theorem handle_inStep (h : ∀ s, m.executor.session = some s → m.InStep s)
    {c : Operator.Command R} {reply : Operator.Reply R} (handled : m.handle c = (.ok reply, m'))
    (session' : m'.executor.session = some s') : m'.InStep s' := by
  have modes := (handled_mode (handle_eq_ok handled)).1
  rcases loads : m.loads? c with _ | s
  · have same := (handle_eq_ok handled).same loads
    exact (h s' (same.session.symm.trans session')).same same.progress
      fun stays wind => stays (modes.trans wind)
  · cases c with
    | load recipe line =>
      obtain ⟨text, m₁, loaded, answered⟩ := Outcome.andThen_eq_ok handled
      cases answered
      have mode : m.mode = .stop := by
        by_contra busy
        rw [loads?, if_pos busy] at loads
        cases loads
      rw [loads?, if_neg (not_not.mpr mode)] at loads
      rcases hl : m.executor.load m.files (m.directory.recipePath recipe) (line.getD 0) with
        ⟨e | ⟨⟩, x⟩
      · rw [hl] at loads
        cases loads
      · have path := Executor.load_path hl (s := s')
        obtain ⟨library, s, -, cursor, -, rfl⟩ := Executor.load_eq_ok hl
        rw [load_eq_adopting mode hl rfl] at loaded
        obtain ⟨_, m₂, saved, loaded⟩ := Outcome.andThen_eq_ok loaded
        obtain ⟨records, files, rfl, -, recipe, line, -⟩ := save_eq_ok saved
        cases loaded
        cases session'
        exact ⟨by rw [path rfl]; rfl, recipe.trans (path rfl).symm,
          fun _ => line.trans (congrArg some cursor.symm)⟩
    | start | stop | jog | head | latch | status | calibrate | shutdown => cases loads

/-! ## The start -/

/-- A machine that boots takes up the recipe in progress at its line. -/
theorem boot_inStep (none : m.executor.session = none) (wellFormed : m.record.WellFormed)
    (booted : m.boot = (.ok (), m')) (session' : m'.executor.session = some s') :
    m'.InStep s' := by
  have idle : m.bootExecutor.session = Option.none := m.bootExecutor_same.1.trans none
  rw [boot_eq] at booted
  simp only at booted
  split at booted
  · cases booted
    cases idle.symm.trans session'
  · next recipe known =>
    rcases hl : m.bootExecutor.load
      (m.note "machine" "boot" "host started" [("apa", m.record.name)]).files recipe
      (m.record.line.getD 0) with ⟨e | ⟨⟩, x⟩
    · rw [hl] at booted
      obtain ⟨library, rfl⟩ := Executor.load_eq_error hl
      obtain ⟨_, m₁, saved, booted⟩ := Outcome.andThen_eq_ok booted
      obtain ⟨records, files, rfl, -⟩ := save_eq_ok saved
      cases booted
      cases idle.symm.trans session'
    · rw [hl] at booted
      cases booted
      have path := Executor.load_path hl session'
      obtain ⟨library, s, -, cursor, -, rfl⟩ := Executor.load_eq_ok hl
      cases session'
      obtain ⟨line, recorded⟩ := Option.isSome_iff_exists.mp
        (wellFormed.paired (by rw [show m.record.recipe = some recipe from known]; rfl))
      refine ⟨by rw [path]; rfl, known.trans path.symm, fun _ => recorded.trans ?_⟩
      rw [cursor, recorded]
      rfl

/-- The record is read from its file, or begins without one. -/
theorem make_filed [LegibleScalar R] {c : Configuration R} {d : DataDirectory}
    {files prepared files' : FileStore} {exchange : Exchange R} {now : Timestamp}
    (numbered : files.Numbered) (ready : d.prepare files = (prepared, .ok ()))
    (written : ∀ content serial, prepared.find (d.recordPath c.machine.apaName) =
      .ok (.file content serial) → IsRecordFile R content)
    (shown : now.IsShown) (made : Machine.make c prepared d exchange now = (.ok m, files')) :
    m.Filed (d.recordPath c.machine.apaName) := by
  obtain ⟨x, records, journal, -, loaded, opened, rfl⟩ := make_eq_ok made
  obtain ⟨r, rfl, ⟨absent, rfl⟩ | ⟨text, read, decoded⟩⟩ := RecordStore.load_eq_ok loaded
  · refine ⟨rfl, .fresh _, shown, DataDirectory.openAt_holds _ numbered ready ?_ opened⟩
    intro content serial found
    have present := FileStore.contains_iff.mpr ⟨_, found⟩
    cases absent.symm.trans present
  · obtain ⟨content, read, text_eq⟩ := FileStore.readText_eq_ok_iff.mp read
    obtain ⟨serial, found⟩ := FileStore.read_eq_ok_iff.mp read
    obtain ⟨r', wellFormed, rfl⟩ := written content serial found
    rw [ApaRecord.content, fromUTF8?_toUTF8] at text_eq
    cases text_eq
    rw [wellFormed.ofText_text] at decoded
    cases decoded
    refine ⟨rfl, wellFormed, shown, DataDirectory.openAt_holds _ numbered ready ?_ opened⟩
    intro content serial' found'
    cases found.symm.trans found'
    rfl

theorem bootFailed_filed (h : m.Archives path) {recipe message : String} {line : Nat}
    (short : line < ApaRecord.lineLimit)
    (failed : m.bootFailed recipe line message = (.ok (), m')) : m'.Filed path := by
  have fault : (m.withRecord fun r => r.withFault m.now "boot" message (some line)).Archives path :=
    h.withRecord (h.record.withFault h.now _ _ (by rintro _ ⟨⟩; exact short))
  obtain ⟨_, m₁, saved, failed⟩ := Outcome.andThen_eq_ok failed
  have noted : (m₁.note "machine" "fault" message [("recipe", recipe)]).Filed path :=
    ArchivesIn.note (fault.save saved) ..
  cases failed
  exact noted

theorem boot_filed (h : m.Filed path) (booted : m.boot = (.ok (), m')) : m'.Filed path := by
  have noted : (m.note "machine" "boot" "host started" [("apa", m.record.name)]).Filed path :=
    ArchivesIn.note h ..
  have line : m.record.line.getD 0 < ApaRecord.lineLimit := by
    rcases recorded : m.record.line with _ | line
    · decide
    · exact h.record.line line recorded
  rw [boot_eq] at booted
  simp only at booted
  split at booted
  · cases booted
    exact noted
  · split at booted
    · cases booted
      exact noted
    · refine bootFailed_filed ?_ line booted
      exact noted.archives

end Machine

namespace Station

variable [Adapter σ]

/-! ## Runs -/

omit [Adapter σ] in
/-- What the world around a station leaves alone: a recipe that is loaded has no more lines than 64
bits can count, the clock shows a time, and the file of the record is not changed, though it may be
removed. -/
def Tends (s : Station σ R) : Event σ R → Prop
  | .command c =>
    ∀ sess, s.machine.loads? c = some sess → sess.lines.length < ApaRecord.lineLimit
  | .world _ files _ now => now.IsShown ∧ s.machine.files.next ≤ files.next ∧
    ∀ content serial, files.find s.machine.records.path = .ok (.file content serial) →
      s.machine.files.find s.machine.records.path = .ok (.file content serial)
  | .dispatch | .tick => True

/-- Whether the station was left alone all along. -/
def tending : Observer σ R Prop where
  initial s := ∀ sess, s.machine.executor.session = some sess →
    sess.lines.length < ApaRecord.lineLimit
  follow s e tended := tended ∧ s.Tends e

/-- The books are in order: the record is in its file while the machine is stopped, and in step with
the session, whose lines can be recorded. -/
structure Books (s : Station σ R) (path : String) : Prop where
  rests : s.machine.Rests path
  inStep : ∀ sess, s.machine.executor.session = some sess → s.machine.InStep sess
  short : ∀ sess, s.machine.executor.session = some sess →
    sess.lines.length < ApaRecord.lineLimit

variable {s₀ s s' : Station σ R} {path : String}

/-- A station starts with its books in order. -/
theorem start_books [LegibleScalar R] {c : Configuration R} {d : DataDirectory}
    {files files' : FileStore} {plc : σ} {clock : Nat} {now : Timestamp} (numbered : files.Numbered)
    (written : ∀ content serial, (d.prepare files).1.find (d.recordPath c.machine.apaName) =
      .ok (.file content serial) → IsRecordFile R content)
    (shown : now.IsShown) (started : Station.start c files d plc clock now = (.ok s, files'))
    (short : ∀ sess, s.machine.executor.session = some sess →
      sess.lines.length < ApaRecord.lineLimit) :
    s.Books (d.recordPath c.machine.apaName) := by
  obtain ⟨prepared, _, _, _, _, _, m, ready, -, made, booted, -⟩ := start_eq_ok started
  rw [ready] at written
  have filed := Machine.make_filed numbered ready written shown made
  have fresh := (Machine.make_fresh made rfl).1
  exact ⟨(Machine.boot_filed filed booted).rests,
    fun sess => Machine.boot_inStep fresh.session filed.record booted, short⟩

/-- An event keeps the books in order. -/
theorem perform_books [LegibleScalar R] {e : Event σ R} (h : s.Books path)
    (orderly : s.machine.Orderly)
    (coherent : ∀ sess, s.machine.executor.session = some sess → s.machine.course.Coherent sess)
    (tended : s.Tends e) (step : s.perform e = (.ok (), s')) : s'.Books path := by
  obtain ⟨rests, inStep, short⟩ := h
  cases e with
  | command c =>
    rcases handled : s.machine.handle c with ⟨e | reply, m⟩
    · simp only [perform, handled] at step
      cases step
    · simp only [perform, handled] at step
      cases step
      refine ⟨rests.handle tended handled, fun sess => Machine.handle_inStep inStep handled, ?_⟩
      intro sess session
      rcases s.machine.handle_adopts c with ⟨-, -, same⟩ | ⟨x, loaded, path, loads, -, noted⟩
      · rw [handled] at same
        exact short sess (same.session.symm.trans session)
      · rw [handled] at noted
        obtain ⟨records, files, rfl, -⟩ := noted
        cases session
        exact tended sess loads
  | dispatch =>
    cases step
    exact ⟨rests, fun sess session => (inStep sess session).same (.refl _) id, short⟩
  | tick =>
    have ticked := tick_eq_ok step
    refine ⟨rests.tick (fun wind => ?_) ticked,
      fun sess => Machine.tick_inStep inStep orderly ticked, fun sess session => ?_⟩
    · obtain ⟨sess, session⟩ := Option.isSome_iff_exists.mp (orderly.wind wind).1
      exact ⟨sess, coherent sess session, short sess session⟩
    · obtain ⟨before, session', same⟩ :=
        (Machine.tick_carries orderly ticked).session sess session
      have lines : sess.lines = before.lines := by rw [same]
      exact lines ▸ short before session'
  | world plc files clock now =>
    cases step
    obtain ⟨shown, next, same⟩ := tended
    refine ⟨⟨rests.1.spared shown next same, fun stop => (rests.2 stop).spared shown next same⟩,
      fun sess session => (inStep sess session).same (.refl _) id, short⟩

theorem performAll_tends {tended tended' : Prop} {es : List (Event σ R)}
    (performed : s.performAll tending tended es = some (s', tended'))
    (tends : ∀ s : Station σ R, ∀ e ∈ es, s.Tends e) (h : tended) : tended' := by
  induction es generalizing s tended with
  | nil =>
    cases performed
    exact h
  | cons e es ih =>
    obtain ⟨s₁, -, performed⟩ := performAll_cons performed
    exact ih performed (fun s e' he => tends s e' (List.mem_cons_of_mem _ he))
      ⟨h, tends s e List.mem_cons_self⟩

/-- The books are in order in every run. -/
theorem Run.books [LegibleScalar R] {tended : Prop} (begins : s₀.Begins)
    (books : tending.initial s₀ → s₀.Books path) (run : Run tending s₀ s tended) (h : tended) :
    s.Books path := by
  induction run with
  | start => exact books h
  | next run step ih =>
    obtain ⟨before, now⟩ := h
    obtain ⟨account, watched⟩ := run.observed accounts
    exact perform_books (ih before) (run.orderly begins)
      (fun sess session => (watched.kept begins sess session).coherent) now step

/-- Whenever a machine that has booted is stopped, the recipe in progress is that of its session, at
the next line of the session, and the file of the record, if there is one, is read as the record. At
every other point the file is one from which a station can be started again. -/
theorem Run.record_at_rest [LegibleScalar R] {c : Configuration R} {d : DataDirectory}
    {files files' : FileStore} {plc : σ} {clock : Nat} {now : Timestamp} {tended : Prop}
    (numbered : files.Numbered)
    (written : ∀ content serial, (d.prepare files).1.find (d.recordPath c.machine.apaName) =
      .ok (.file content serial) → IsRecordFile R content)
    (shown : now.IsShown) (started : Station.start c files d plc clock now = (.ok s₀, files'))
    (run : Run tending s₀ s tended) (h : tended) :
    (s.machine.mode = .stop →
      (∀ sess, s.machine.executor.session = some sess → ∃ path, sess.path = some path ∧
        s.machine.record.recipe = some path ∧ s.machine.record.line = some sess.cursor) ∧
      ∀ content serial, s.machine.files.find (d.recordPath c.machine.apaName) =
        .ok (.file content serial) → ∃ text, String.fromUTF8? content = some text ∧
          ApaRecord.ofText text = .ok s.machine.record) ∧
    ∀ content serial, s.machine.files.find (d.recordPath c.machine.apaName) =
      .ok (.file content serial) → IsRecordFile R content := by
  have books := run.books (start_begins started)
    (start_books numbered written shown started) h
  refine ⟨fun stop => ⟨fun sess session => ?_, fun content serial found => ?_⟩,
    fun content serial found => (books.rests.1.file.file content serial found).2⟩
  · obtain ⟨path, recipe, line⟩ := books.inStep sess session
    obtain ⟨path, named⟩ := Option.isSome_iff_exists.mp path
    exact ⟨path, named, recipe.trans named, line (by rw [stop]; decide)⟩
  · have filed := books.rests.2 stop
    obtain ⟨-, rfl⟩ := filed.file.file content serial found
    exact ⟨s.machine.record.text, fromUTF8?_toUTF8 _, filed.record.ofText_text⟩

end Station

/-! ## A run to a pause -/

namespace Bench

open Station

theorem seekFiles_numbered : seekFiles.Numbered :=
  (((FileStore.empty_numbered _).putDirectory (by decide)).putFile (by decide) _).putFile
    (by decide) _

/-- A station that starts with the recipe among its files. -/
def seekStation : Option (Station Plc Float) :=
  (Station.start .standard seekFiles ⟨"/data"⟩ ⟨true, false⟩ 0 .epoch).1.toOption

/-- Where the record of the station is kept. -/
def seekRecord : String :=
  DataDirectory.recordPath ⟨"/data"⟩ (.standard : Configuration Float).machine.apaName

/-- The recipe is loaded and wound up to the pause. -/
theorem seekStation_pauses :
    (DataDirectory.prepare ⟨"/data"⟩ seekFiles).1.contains seekRecord = false ∧
    ∃ s₀ ∈ seekStation, s₀.machine.executor.session.isNone ∧
      ((s₀.machine.loads? (.load "seek" none)).all
        fun sess => decide (sess.lines.length < ApaRecord.lineLimit)) ∧
      ∃ last ∈ s₀.performAll tending (tending.initial s₀) seeking,
        last.1.machine.mode = .stop ∧
        (last.1.machine.executor.session.any fun sess => decide (sess.cursor = 2)) ∧
        (last.1.machine.files.read seekRecord).toOption.isSome := by
  decide +kernel

/-- At the pause the record says the next line, and its file is read as the record. -/
theorem seekStation_rests : ∃ (s₀ s : Station Plc Float) (tended : Prop) (content : ByteArray)
    (text : String), seekStation = some s₀ ∧ Run tending s₀ s tended ∧ tended ∧
      s.machine.mode = .stop ∧ s.machine.record.line = some 2 ∧
      s.machine.files.read seekRecord = .ok content ∧ String.fromUTF8? content = some text ∧
      ApaRecord.ofText text = .ok s.machine.record := by
  obtain ⟨absent, s₀, began, none, short, ⟨s, tended⟩, performed, stop, session, present⟩ :=
    seekStation_pauses
  rcases started : Station.start (R := Float) .standard seekFiles ⟨"/data"⟩ (⟨true, false⟩ : Plc) 0
    .epoch with ⟨r, files'⟩
  have started₀ : r = .ok s₀ := by
    refine eq_ok_of_toOption ?_
    rw [← began, seekStation, started]
  subst started₀
  have run : Run tending s₀ s tended := Run.start.performAll performed
  have tends : tended := by
    obtain ⟨s₁, -, rest⟩ := performAll_cons performed
    have others : ∀ e ∈ seeking.tail, e = .dispatch ∨ e = .tick ∨ e = .command .start := by
      simp [seeking]
    refine performAll_tends rest (fun s e he => ?_) ⟨fun sess session => ?_, fun sess loads => ?_⟩
    · rcases others e he with rfl | rfl | rfl
      · trivial
      · trivial
      · exact nofun
    · rw [session] at none
      cases none
    · rw [loads] at short
      exact of_decide_eq_true short
  have written (content : ByteArray) (serial : Nat)
      (found : (DataDirectory.prepare ⟨"/data"⟩ seekFiles).1.find seekRecord =
        .ok (.file content serial)) : IsRecordFile Float content := by
    cases absent.symm.trans (FileStore.contains_iff.mpr ⟨_, found⟩)
  obtain ⟨atRest, -⟩ := Run.record_at_rest seekFiles_numbered written ⟨by decide, by decide⟩ started
    run tends
  obtain ⟨inStep, filed⟩ := atRest stop
  obtain ⟨sess, loaded, cursor⟩ := (Option.any_eq_true _ _).mp session
  obtain ⟨path, -, -, line⟩ := inStep sess loaded
  obtain ⟨content, read⟩ : ∃ content, s.machine.files.read seekRecord = .ok content := by
    rcases read : s.machine.files.read seekRecord with e | content
    · rw [read] at present
      cases present
    · exact ⟨content, rfl⟩
  obtain ⟨serial, found⟩ := FileStore.read_eq_ok_iff.mp read
  obtain ⟨text, decoded, written⟩ := filed content serial found
  rw [of_decide_eq_true cursor] at line
  exact ⟨s₀, s, tended, content, text, began, run, tends, stop, line, read, decoded, written⟩

end Bench

end Winding

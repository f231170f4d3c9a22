import Winding.Proofs.Calibration.RoundTrip
import Winding.Proofs.Machine.Limits
import Winding.Proofs.Operator.Reading
import Winding.Proofs.Station.Replies

/-!
# What a line is read as, and how it is answered

A period of the machine, and a command, leave the status of the controller as it was published
(`Machine.tick_status`, `Machine.Handled.status`). So a station that has started tells of errors of
the controller only (`Station.Run.told`), and a line that it carries out, which asks for no jog that
cannot be made, is not refused for its limits. With what the words of a line ask for, this is
`Operator.Command.ofText_exact`.
-/

namespace Winding

variable {σ R : Type} [Scalar R]

/-! ## The published status -/

namespace Machine

variable {m m' : Machine R}

omit [Scalar R] in
theorem Noted.status (h : m.Noted m') : m'.status = m.status := by
  obtain ⟨records, files, rfl, -⟩ := h
  rfl

theorem Synced.status (h : m.Synced m') : m'.status = m.status := by
  obtain ⟨records, files, rfl, -⟩ := h
  rfl

theorem enterWind_status (m : Machine R) : m.enterWind.status = m.status := by
  unfold enterWind
  split <;> rfl

theorem StopPeriod.status (h : m.StopPeriod m') : m'.status = m.status := by
  cases h with
  | refused | rests => rfl
  | starts _ _ noted => exact (enterWind_status _).trans noted.status
  | visits _ _ _ _ noted | moves _ _ _ _ noted => exact noted.status

theorem ManualPeriod.status (h : m.ManualPeriod m') : m'.status = m.status := by
  cases h with
  | waits | pushes | runs => rfl
  | fails _ _ noted | rejects _ _ _ noted | ends _ _ noted => exact noted.status

theorem CalibrationPeriod.status (h : m.CalibrationPeriod m') : m'.status = m.status := by
  cases h with
  | waits | pushes => rfl
  | fails _ _ noted | ends _ _ noted => exact noted.status

theorem WindPeriod.status {c : Course R} (h : m.WindPeriod c m') (active : m.course.IsActive) :
    m'.status = m.status := by
  cases h with
  | windsOn _ synced | stops _ _ synced => exact synced.status
  | finishes _ _ _ forgotten =>
    obtain ⟨records, files, r, rfl, -, -⟩ := forgotten
    rfl
  -- A period that finds nothing to wind says nothing of the machine after it.
  | idles idle => exact absurd idle active.2

/-- A period leaves the status as it was published. -/
theorem tick_status (h : m.Orderly) (ticked : m.tick = (.ok (), m')) :
    m'.status = m.status := by
  rcases mode : m.mode with _ | _ | _ | _
  · exact (tick_stop mode ticked).status
  · exact (tick_manual mode ticked).status
  · exact (tick_wind mode ticked).status (h.wind mode)
  · exact (tick_calibration mode ticked).status

/-- So does a command. -/
theorem Handled.status {c : Operator.Command R} (h : m.Handled c m') : m'.status = m.status := by
  cases h with
  | keeps | stops | starts | asks | calibrates | shuts => rfl
  | fails _ _ _ noted | loads _ _ _ _ _ _ noted => exact noted.status

theorem boot_status (h : m.boot = (.ok (), m')) : m'.status = m.status := by
  rcases boot_eq_ok h with ⟨x, error, -, noted⟩ | ⟨x, s, -, -, -, -, noted⟩
  · exact noted.status
  · exact noted.status

theorem make_status {c : Configuration R} {files files' : FileStore} {d : DataDirectory}
    {exchange : Exchange R} {now : Timestamp}
    (h : Machine.make c files d exchange now = (.ok m, files')) : m.status = exchange.status := by
  unfold make at h
  split at h
  · cases h
  · split at h
    · cases h
    · split at h
      · cases h
      · cases h
        rfl

end Machine

/-! ## What a station tells -/

namespace Station

variable [Adapter σ] {s₀ s s' : Station σ R}

/-- Errors of the controller are all that the station tells of it. -/
structure Told (s : Station σ R) : Prop where
  status : s.machine.status.Told
  dispatcher : s.dispatcher.Told

theorem start_told {c : Configuration R} {files files' : FileStore} {d : DataDirectory} {plc : σ}
    {clock : Nat} {now : Timestamp} (h : Station.start c files d plc clock now = (.ok s, files')) :
    s.Told := by
  obtain ⟨_, _, status, _, _, _, m, -, polled, made, booted, dispatcher⟩ := start_eq_ok h
  have kept : s.machine.status = status :=
    (Machine.boot_status booted).trans (Machine.make_status made)
  refine ⟨kept ▸ Link.tells_of_poll (congrArg Prod.fst polled), ?_⟩
  rw [dispatcher]
  exact ⟨trivial, nofun⟩

omit [Scalar R] [Adapter σ] in
theorem Told.of_status (h : s.Told) (status : s'.machine.status = s.machine.status)
    (dispatcher : s'.dispatcher = s.dispatcher) : s'.Told :=
  ⟨status ▸ h.status, dispatcher ▸ h.dispatcher⟩

theorem Told.perform {e : Event σ R} (h : s.Told) (orderly : s.machine.Orderly)
    (step : s.perform e = (.ok (), s')) : s'.Told := by
  cases e with
  | command c =>
    exact h.of_status (command_eq_ok step).status (congrArg (·.2.dispatcher) step).symm
  | dispatch =>
    cases step
    obtain ⟨dispatcher, status⟩ := h.dispatcher.cycleOver h.status s.plc s.clock s.clock
    exact ⟨status, dispatcher⟩
  | tick =>
    exact h.of_status (Machine.tick_status orderly (tick_eq_ok step))
      (congrArg (·.2.dispatcher) step).symm
  | world plc files clock now =>
    cases step
    exact ⟨h.status, h.dispatcher⟩

variable {α : Type} {o : Observer σ R α} {a : α}

/-- In no run does a station tell of anything else. -/
theorem Run.told (begins : s₀.Begins) (h : s₀.Told) (run : Run o s₀ s a) : s.Told := by
  induction run with
  | start => exact h
  | next run step ih => exact ih.perform (run.orderly begins) step

end Station

/-! ## Lines -/

namespace Operator

/-- A jog that words ask for goes to a finite point, at a velocity that can be used. -/
theorem Asks.usable {name : String} {arguments : List String} {target : Location R}
    {velocity : Option R} (asks : Asks name arguments (.jog target velocity)) :
    target.isFinite = true ∧ ∀ v ∈ velocity, Rates.usable v = true := by
  cases asks with
  | jog hx hy hz => exact ⟨Location.isFinite_iff.mpr ⟨hx.2, hy.2, hz.2⟩, nofun⟩
  | jogAt hx hy hz hv pos =>
    refine ⟨Location.isFinite_iff.mpr ⟨hx.2, hy.2, hz.2⟩, ?_⟩
    rintro _ ⟨⟩
    exact Bool.and_eq_true_iff.mpr ⟨hv.2, pos⟩

theorem Means.usable {words : List String} {target : Location R} {velocity : Option R}
    (meant : Means words (.jog target velocity)) :
    target.isFinite = true ∧ ∀ v ∈ velocity, Rates.usable v = true := by
  obtain ⟨asks⟩ := meant
  exact asks.usable

/-- No jog that a line asks for is refused for its limits. -/
theorem Means.not_refusesLimits {words : List String} {c : Command R} (meant : Means words c)
    {m : Machine R} (told : m.status.Told) : ¬m.RefusesLimits c := by
  intro refused
  obtain ⟨target, velocity, w, rfl, given, unusable⟩ := refused.not_of_told told
  cases (meant.usable.2 w given).symm.trans unusable

/-- A line is read by its words alone, and accepted exactly as what they ask for. A jog that is
accepted goes to a finite point at a velocity that can be used. So a command of a line is not
refused for its limits, at any point of any run of a station that has started. Whatever the machine,
only a start may be answered like that, where the status of the controller tells of something that
no dispatcher publishes. -/
theorem Command.ofText_exact [PlainScalar R] (s : String) : ∃ words,
    (∀ ws, Spaced s.toList ws ↔ ws = words) ∧
    (∀ t, Spaced t.toList words → (ofText t : Except CommandError (Command R)) = ofText s) ∧
    (∀ c : Command R, ofText s = .ok c ↔ Means (words.map String.ofList) c) ∧
    ∀ c : Command R, ofText s = .ok c →
      (∀ target velocity, c = .jog target velocity →
        target.isFinite = true ∧ ∀ v ∈ velocity, Rates.usable v = true) ∧
      (∀ m : Machine R, m.RefusesLimits c → c = .start ∧ ¬m.status.Told) ∧
      ∀ {σ α : Type} [Adapter σ] {o : Station.Observer σ R α} {s₀ st : Station σ R} {a : α}
        {cfg : Configuration R} {d : DataDirectory} {files files' : FileStore} {plc : σ}
        {clock : Nat} {now : Timestamp},
        Station.start cfg files d plc clock now = (.ok s₀, files') →
        Station.Run o s₀ st a → ¬st.machine.RefusesLimits c := by
  have spaced : Spaced s.toList (wordsOf s.toList) := wordsOf_eq_iff.mp rfl
  refine ⟨wordsOf s.toList, fun ws => ?_, fun t same => ?_, fun c => ofText_eq_ok_iff spaced,
    fun c read => ?_⟩
  · rw [← wordsOf_eq_iff, eq_comm]
  · rw [ofText, ofText, wordsOf_eq_iff.mpr same]
  · have meant := (ofText_eq_ok_iff spaced).mp read
    have usable (target velocity) (jog : c = .jog target velocity) :
        target.isFinite = true ∧ ∀ v ∈ velocity, Rates.usable v = true := by
      subst jog
      exact meant.usable
    refine ⟨usable, fun m refused => ⟨?_, fun told => meant.not_refusesLimits told refused⟩, ?_⟩
    · exact (refused.of_usable fun target velocity jog => (usable target velocity jog).2).1
    · intro σ α _ o s₀ st a cfg d files files' plc clock now started run
      have told := run.told (Station.start_begins started) (Station.start_told started)
      exact meant.not_refusesLimits told.status

/-- A jog in upper and lower case, with blanks of different kinds, at a station that has started. -/
theorem Command.jog_exact :
    let s := " Jog 10  20.5\t-0 1e2 "
    ∃ words, Spaced s.toList words ∧
      words.map String.ofList = ["Jog", "10", "20.5", "-0", "1e2"] ∧
      ∃ (target : Location Float) (velocity : Float),
        ofText s = .ok (.jog target (some velocity)) ∧
        Means (words.map String.ofList) (.jog target (some velocity)) ∧
        target.isFinite = true ∧ Rates.usable velocity = true ∧
        ∃ st ∈ Bench.started Bench.seekFiles,
          ¬st.machine.RefusesLimits (.jog target (some velocity)) := by
  have number (word : String) (h : (Scalar.ofText? (R := Float) word).any Scalar.isFinite = true) :
      ∃ x : Float, WritesNumber word x :=
    (Option.any_eq_true _ _).mp h
  obtain ⟨x, hx⟩ := number "10" (by decide +kernel)
  obtain ⟨y, hy⟩ := number "20.5" (by decide +kernel)
  obtain ⟨z, hz⟩ := number "-0" (by decide +kernel)
  obtain ⟨v, hv, pos⟩ : ∃ v : Float, WritesNumber "1e2" v ∧ Scalar.positive v = true := by
    have read : (Scalar.ofText? (R := Float) "1e2").any
        (fun v => Scalar.isFinite v && Scalar.positive v) = true := by
      decide +kernel
    obtain ⟨v, read, usable⟩ := (Option.any_eq_true _ _).mp read
    obtain ⟨finite, pos⟩ := Bool.and_eq_true_iff.mp usable
    exact ⟨v, ⟨read, finite⟩, pos⟩
  have asks : Asks (lower "Jog") ["10", "20.5", "-0", "1e2"] (.jog ⟨x, y, z⟩ (some v)) :=
    .jogAt hx hy hz hv pos
  have starts : (Bench.started Bench.seekFiles).isSome := by decide +kernel
  obtain ⟨st, started⟩ := Option.isSome_iff_exists.mp starts
  obtain ⟨files, started'⟩ := Bench.exists_of_started started
  intro s
  obtain ⟨words, only, -, meant, jogs⟩ := ofText_exact (R := Float) s
  have cut : (wordsOf s.toList).map String.ofList = ["Jog", "10", "20.5", "-0", "1e2"] := by
    decide +kernel
  have same : wordsOf s.toList = words := (only _).mp (wordsOf_eq_iff.mp rfl)
  rw [same] at cut
  have asked : Means (words.map String.ofList) (.jog ⟨x, y, z⟩ (some v)) := cut ▸ .intro asks
  have read := (meant _).mpr asked
  obtain ⟨usable, -, never⟩ := jogs _ read
  obtain ⟨finite, usable⟩ := usable _ _ rfl
  exact ⟨words, (only _).mpr rfl, cut, ⟨x, y, z⟩, v, read, asked, finite, usable v rfl, st, started,
    never started' (.start (o := ⟨fun _ => (), fun _ _ => id⟩))⟩

end Operator

end Winding

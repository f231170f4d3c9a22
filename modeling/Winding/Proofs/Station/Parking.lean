import Winding.Proofs.Station.Cancellation
import Winding.Proofs.Station.Sessions

/-!
# Requests behind winding

A request for motion outside winding waits in its place while the machine is stopped, and manual
motion also while it runs (`Machine.WaitsInPlace`). What a start or a visit to a pin overtakes waits
elsewhere: an observer writes down which requests wait when a stopped machine has had its period
(`Station.parking`). Requests wait in their place exactly when that is nothing, or the machine is
stopped or in manual motion. Then winding comes after all that was accepted before it. Otherwise,
once it has stopped, the machine queues what was overtaken (`Station.Run.parked`).
-/

namespace Winding

variable {σ R : Type}

/-- Requests wait only where they are carried out next. -/
structure Machine.WaitsInPlace (m : Machine R) : Prop where
  manual : m.pendingManual ≠ [] → m.mode = .stop ∨ m.mode = .manual
  calibration : m.pendingCalibration ≠ none → m.mode = .stop

/-- The requests that wait for another mode to begin, or in manual motion. -/
def Tickets.behind (t : Tickets) : List Nat := t.manual ++ t.calibration.toList

theorem Tickets.Fits.behind_eq_nil {t : Tickets} {m : Machine R} (h : t.Fits m) :
    t.behind = [] ↔ m.pendingManual = [] ∧ m.pendingCalibration = none := by
  have manual : t.manual = [] ↔ m.pendingManual = [] := by
    rw [← List.length_eq_zero_iff, h.manual, List.length_eq_zero_iff]
  rw [Tickets.behind, List.append_eq_nil_iff, Option.toList_eq_nil_iff, manual,
    h.calibration_eq_none_iff]

/-- The requests with their numbers, and those that waited when a stopped machine last had its
period. -/
structure Parking where
  tickets : Tickets
  parked : List Nat
deriving DecidableEq, Repr

/-- In winding and in a visit to a pin the machine is neither stopped nor in manual motion. -/
theorem Mode.ne_of_away {mode : Mode} (away : mode = .wind ∨ mode = .calibration) :
    mode ≠ .stop ∧ mode ≠ .manual := by
  rcases away with rfl | rfl <;> decide

/-- Requests are accepted only while the machine is stopped or in manual motion. -/
theorem Machine.Handled.mode_of_accepts [Scalar R] {m m' : Machine R} {c : Operator.Command R}
    (h : m.Handled c m') (accepted : m.accepts c = true) : m.mode = .stop ∨ m.mode = .manual := by
  rcases h with
    ⟨-, refused⟩ | - | - | ⟨request, -, -, -, -, mode⟩ | ⟨pin, -, mode, -, -⟩ | - |
    ⟨library, -, refused, -⟩ | ⟨library, path, mode, -, -, -, -⟩
  · cases refused.symm.trans accepted
  · cases accepted
  · cases accepted
  · exact mode
  · exact .inl mode
  · cases accepted
  · cases refused.symm.trans accepted
  · exact .inl mode

namespace Station

variable [Scalar R] [Adapter σ]

/-- The observer who also keeps what waits when the machine leaves stop. -/
def parking : Observer σ R Parking where
  initial s := ⟨tickets.initial s, []⟩
  follow s e p :=
    ⟨tickets.follow s e p.tickets,
      match e with
      | .tick =>
        if s.machine.mode = .stop then (tickets.follow s (.tick : Event σ R) p.tickets).behind
        else p.parked
      | .command _ | .dispatch | .world _ _ _ _ => p.parked⟩

/-- The numbers agree with the machine, and in winding and visits nothing else begins to wait. -/
structure Parks (s : Station σ R) (p : Parking) : Prop where
  agrees : s.Agrees p.tickets
  behind : s.machine.mode = .wind ∨ s.machine.mode = .calibration → p.tickets.behind = p.parked

variable {s₀ s s' : Station σ R} {p : Parking} {t' : Tickets} {e : Event σ R}

/-- A period keeps what is parked. -/
theorem Parks.tick (h : s.Parks p) (step : s.perform .tick = (.ok (), s'))
    (away : s'.machine.mode = .wind ∨ s'.machine.mode = .calibration) :
    (parking.follow s (.tick : Event σ R) p).tickets.behind =
      (parking.follow s (.tick : Event σ R) p).parked := by
  simp only [parking]
  split
  · rfl
  · next moving =>
    have ticked := tick_eq_ok step
    have same : s'.machine.mode = s.machine.mode :=
      (Machine.tick_stays_or_stops h.agrees.orderly moving ticked).resolve_right
        (Mode.ne_of_away away).1
    rw [same] at away
    have working : s.machine.mode = .wind ∧ s.machine.executor.state ≠ .idle ∨
        s.machine.mode = .calibration :=
      away.imp_left fun wind => ⟨wind, (h.agrees.orderly.wind wind).2⟩
    have waits := Machine.tick_waitsOn working ticked
    simp only [tickets, ticked]
    rw [Tickets.behind, h.agrees.fits.period_manual waits.manual,
      h.agrees.fits.period_calibration waits.calibration]
    exact h.behind away

theorem perform_parks (h : s.Parks p) (step : s.perform e = (.ok (), s')) :
    s'.Parks (parking.follow s e p) := by
  refine ⟨perform_agrees h.agrees step, fun away => ?_⟩
  cases e with
  | command c =>
    have handled := command_eq_ok step
    rw [(Machine.handled_mode handled).1] at away
    have refused : s.machine.accepts c = false := by
      obtain ⟨stop, manual⟩ := Mode.ne_of_away away
      exact eq_false_of_ne_true fun accepted => (handled.mode_of_accepts accepted).elim stop manual
    simp only [parking, tickets, Tickets.command_of_refused refused]
    exact h.behind away
  | tick => exact h.tick step away
  | dispatch | world =>
    cases step
    exact h.behind away

/-- What is parked agrees with the machine in every run. -/
theorem Run.parks (begins : s₀.Begins) (run : Run parking s₀ s p) : s.Parks p := by
  exact run.invariant ⟨Run.start.agrees begins, fun _ => rfl⟩ fun _ _ _ _ h step =>
    perform_parks h step

omit [Scalar R] [Adapter σ] in
/-- In winding and in visits, requests wait in their place only when none waits. -/
theorem Parks.waitsInPlace (h : s.Parks p) :
    s.machine.WaitsInPlace ↔
      s.machine.mode = .stop ∨ s.machine.mode = .manual ∨ p.parked = [] := by
  have away (mode : s.machine.mode = .wind ∨ s.machine.mode = .calibration) :
      s.machine.WaitsInPlace ↔ p.parked = [] := by
    obtain ⟨stop, manual⟩ := Mode.ne_of_away mode
    rw [← h.behind mode, h.agrees.fits.behind_eq_nil]
    constructor
    · intro waits
      constructor
      · by_contra asked
        exact (waits.manual asked).elim stop manual
      · by_contra asked
        exact stop (waits.calibration asked)
    · rintro ⟨manual, calibration⟩
      exact ⟨fun asked => absurd manual asked, fun asked => absurd calibration asked⟩
  rcases mode : s.machine.mode with _ | _ | _ | _
  · exact ⟨fun _ => .inl rfl, fun _ => ⟨fun _ => .inl mode, fun _ => mode⟩⟩
  · -- manual motion begins only when no visit to a pin waits
    have none := h.agrees.attentive.calibration (.inl mode)
    exact ⟨fun _ => .inr (.inl rfl), fun _ => ⟨fun _ => .inr mode, fun asked => absurd none asked⟩⟩
  · rw [away (.inl mode)]
    exact ⟨fun nil => .inr (.inr nil), fun h => (h.resolve_left nofun).resolve_left nofun⟩
  · rw [away (.inr mode)]
    exact ⟨fun nil => .inr (.inr nil), fun h => (h.resolve_left nofun).resolve_left nofun⟩

/-! ## What is carried out after winding -/

/-- Whatever happens, only requests that are accepted from now on are queued. -/
def Forgets (s : Station σ R) (t : Tickets) : Prop :=
  ∀ es s' t', s.performAll tickets t es = some (s', t') →
    ∃ later, t'.queued = t.queued ++ later ∧ ∀ n ∈ later, t.issued ≤ n

/-- Winding that has overtaken nothing comes after all that was accepted. -/
theorem Parks.forgets (h : s.Parks p) (mode : s.machine.mode = .wind) (nil : p.parked = []) :
    s.Forgets p.tickets := by
  have behind : p.tickets.behind = [] := (h.behind (.inl mode)).trans nil
  obtain ⟨manual, calibration⟩ := List.append_eq_nil_iff.mp behind
  have visit : p.tickets.visit = none := h.agrees.visit_none (by rw [mode]; decide)
  -- nothing waits, so all that is queued later has a number that was not issued yet
  have cancels : p.tickets.Cancels p.tickets.issued s.machine := by
    refine ⟨.inl ?_, .inl ?_, .inl ?_, Nat.le_refl _⟩
    · rw [manual]
      exact List.forall_mem_nil _
    · rw [Option.toList_eq_nil_iff.mp calibration]
      exact nofun
    · rw [visit]
      exact nofun
  exact fun es s' t' performed => performAll_cancels h.agrees cancels performed

/-- What winding has overtaken is queued once winding has stopped. -/
theorem Parks.queued_after_wind (h : s.Parks p) (mode : s.machine.mode = .wind)
    {s₁ : Station σ R} (step : s.perform .tick = (.ok (), s₁)) (stop : s₁.machine.mode = .stop)
    (shutdown : s₁.machine.shutdownRequested = false) (can : s₁.machine.CanQueue)
    (performed : s₁.performAll tickets (tickets.follow s .tick p.tickets) [.tick, .tick] =
      some (s', t')) :
    ∃ n ∈ p.parked, t'.queued = p.tickets.queued ++ [n] := by
  have ticked := tick_eq_ok step
  have agrees := perform_agrees h.agrees step
  have start := (Machine.tick_carries h.agrees.orderly ticked).start
  obtain ⟨n, waits, queued⟩ := queued_at_rest agrees stop shutdown start can performed
  have state := (h.agrees.orderly.wind mode).2
  have kept := Machine.tick_waitsOn (.inl ⟨mode, state⟩) ticked
  have absent : (tickets.follow s (.tick : Event σ R) p.tickets).visit = none :=
    agrees.visit_none (by rw [stop]; decide)
  refine ⟨n, ?_, ?_⟩
  · rw [Tickets.waiting, absent, Option.toList_none, List.append_nil] at waits
    simp only [tickets, ticked] at waits
    rwa [h.agrees.fits.period_manual kept.manual,
      h.agrees.fits.period_calibration kept.calibration, ← Tickets.behind,
      h.behind (.inl mode)] at waits
  · have idle : (tickets.follow s (.tick : Event σ R) p.tickets).queued = p.tickets.queued := by
      refine Tickets.period_queued_of_idle ?_
      rw [mode]
      rfl
    rw [queued, idle]

/-- Requests wait in their place exactly when the machine is stopped or in manual motion, or nothing
was left waiting when it left stop. Winding that has left nothing waiting comes after all that was
accepted before. Otherwise what was overtaken is queued in the next two periods once winding has
stopped, unless a shutdown was asked for, there is a fault, or it cannot be planned. -/
theorem Run.parked (begins : s₀.Begins) (run : Run parking s₀ s p) :
    (s.machine.WaitsInPlace ↔
      s.machine.mode = .stop ∨ s.machine.mode = .manual ∨ p.parked = []) ∧
    (s.machine.mode = .wind → p.parked = [] → s.Forgets p.tickets) ∧
    (s.machine.mode = .wind → ∀ s₁, s.perform .tick = (.ok (), s₁) → s₁.machine.mode = .stop →
      s₁.machine.shutdownRequested = false → s₁.machine.CanQueue → ∀ s' t',
        s₁.performAll tickets (tickets.follow s .tick p.tickets) [.tick, .tick] = some (s', t') →
        ∃ n ∈ p.parked, t'.queued = p.tickets.queued ++ [n]) := by
  have parks := run.parks begins
  exact ⟨parks.waitsInPlace, parks.forgets, fun mode _ step stop shutdown can _ _ performed =>
    parks.queued_after_wind mode step stop shutdown can performed⟩

/-- A jog on the bench that a start overtakes. -/
def benchOvertaking : List (Event Bench.Plc Whole) :=
  [.dispatch, .command (.load "/recipe" none), benchJog, .command .start, .tick]

/-- On the bench, a jog that winding has overtaken is out of its place, and is queued when winding was
stopped. -/
theorem bench_parked :
    ∃ (s s₁ s' : Station Bench.Plc Whole) (p : Parking) (t' : Tickets),
      Run parking Bench.station s p ∧ s.machine.mode = .wind ∧ p.parked = [0] ∧
      ¬s.machine.WaitsInPlace ∧ s.perform .tick = (.ok (), s₁) ∧
      s₁.performAll tickets (tickets.follow s .tick p.tickets) [.tick, .tick] = some (s', t') ∧
      t'.queued = [0] := by
  have reached : (Bench.station.performAll parking (parking.initial Bench.station)
      (benchOvertaking ++ [.command .stop])).any (fun (s, p) =>
        let m := (s.perform .tick).2.machine
        (s.perform .tick).1.isOk ∧ s.machine.mode = .wind ∧ p.parked = [0] ∧
          p.tickets.queued = [] ∧ m.mode = .stop ∧ m.shutdownRequested = false ∧
          m.status.fault? = none ∧ m.pendingCalibration = none ∧
          (m.pendingManual.head?.any fun request => (m.queueRequest request).isOk) ∧
          ((s.perform .tick).2.performAll tickets (tickets.follow s .tick p.tickets)
            [.tick, .tick]).isSome) = true := by
    decide +kernel
  obtain ⟨⟨s, p⟩, performed, facts⟩ := (Option.any_eq_true ..).mp reached
  obtain ⟨ok, mode, parked, none, stop, shutdown, fault, calibration, first, goes⟩ :=
    of_decide_eq_true facts
  have run := Run.start.performAll performed
  have step := perform_of_isOk ok
  have can : (s.perform .tick).2.machine.CanQueue := by
    obtain ⟨request, asked, queueable⟩ := (Option.any_eq_true ..).mp first
    obtain ⟨later, manual⟩ := List.head?_eq_some_iff.mp asked
    refine ⟨fault, ?_⟩
    rw [calibration, manual]
    rcases queued : (s.perform .tick).2.machine.queueRequest request with e | r
    · rw [queued] at queueable
      cases queueable
    · exact ⟨r, queued⟩
  obtain ⟨⟨s', t'⟩, performed'⟩ := Option.isSome_iff_exists.mp goes
  obtain ⟨inPlace, -, after⟩ := run.parked Bench.station_begins
  obtain ⟨n, overtaken, queued⟩ := after mode _ step stop shutdown can s' t' performed'
  rw [parked] at overtaken
  rw [none, List.mem_singleton.mp overtaken] at queued
  refine ⟨s, _, s', p, t', run, mode, parked, fun waits => ?_, step, performed', queued⟩
  rw [inPlace, mode, parked] at waits
  rcases waits with h | h | h <;> cases h

/-- On the bench, a jog that was accepted before a start is queued after the winding. -/
theorem bench_jog_overtaken :
    ¬∀ (s : Station Bench.Plc Whole) (p : Parking), Run parking Bench.station s p →
      s.machine.WaitsInPlace ∧ (s.machine.mode = .wind → s.Forgets p.tickets) := by
  intro forgets
  have reached : (Bench.station.performAll parking (parking.initial Bench.station)
      benchOvertaking).any (fun (s, p) => s.machine.mode = .wind ∧ p.tickets.issued = 1 ∧
        p.tickets.queued = [] ∧
        (s.performAll tickets p.tickets [.command .stop, .tick, .tick, .tick]).any (fun (_, t') =>
          t'.queued = [0])) = true := by
    decide +kernel
  obtain ⟨⟨s, p⟩, performed, facts⟩ := (Option.any_eq_true ..).mp reached
  obtain ⟨mode, issued, none, after⟩ := of_decide_eq_true facts
  obtain ⟨⟨s', t'⟩, performed', queued⟩ := (Option.any_eq_true ..).mp after
  obtain ⟨later, e, new⟩ :=
    (forgets s p (Run.start.performAll performed)).2 mode _ s' t' performed'
  rw [of_decide_eq_true queued, none, List.nil_append] at e
  have impossible := new 0 (e ▸ List.mem_singleton_self 0)
  omega

end Station

end Winding

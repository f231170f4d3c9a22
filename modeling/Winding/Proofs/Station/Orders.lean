import Winding.Proofs.Station.Sessions

/-!
# The session that an order is for

A start and a visit to a pin are asked for while a session is loaded, and a later period carries them
out. An observer of a station writes down which sessions were loaded, and for each of these orders
the session that was loaded when it was answered with `ok` (`Station.orders`). Winding begins only on
a start that was answered with `ok`, and with the session that was loaded last; a visit goes to the
pin of the session that is loaded when its move is queued. These are the sessions that the orders
were given for as long as no recipe was loaded since (`Station.Run.acts_on_orders`).
-/

namespace Winding

variable {σ R : Type} [Scalar R]

/-! ## Orders -/

/-- An order that was answered with `ok`. -/
structure Order (R : Type) where
  /-- How many sessions were loaded before it. -/
  loaded : Nat
  /-- The session that was loaded at the time. -/
  session : Session R

/-- The sessions that were loaded, and the orders that wait. -/
structure Orders (R : Type) where
  /-- Sessions in the order in which they were loaded. -/
  sessions : List (Session R)
  start : Option (Order R)
  /-- The visit to a pin that waits to begin. -/
  calibration : Option (Order R)
  /-- The visit that has begun, until its move is queued. -/
  visit : Option (Order R)

namespace Orders

/-- An order for the session that is loaded. -/
def order (a : Orders R) (m : Machine R) : Option (Order R) :=
  m.executor.session.map fun s => ⟨a.sessions.length, s⟩

/-- What is written down for a command. -/
def command (a : Orders R) (m : Machine R) (c : Operator.Command R) : Orders R :=
  match c with
  | .start => if m.start.1 = "ok" then { a with start := a.order m } else a
  | .stop | .shutdown => { a with start := none }
  | .calibrate pin =>
    if m.accepts (.calibrate pin) then { a with calibration := a.order m } else a
  | .load recipe line =>
    { a with sessions := a.sessions ++ (m.loads? (.load recipe line)).toList }
  | _ => a

/-- The machine has had a period. -/
def period (a : Orders R) (m' : Machine R) : Orders R where
  sessions := a.sessions
  start := if m'.startRequested then a.start else none
  calibration := if m'.pendingCalibration.isSome then a.calibration else none
  visit := if m'.visit.isWanted then a.visit.or a.calibration else none

/-- The recipe of a session was loaded last. -/
def IsLast (a : Orders R) (s : Session R) : Prop :=
  ∃ last, a.sessions.getLast? = some last ∧ last.SameRecipe s

/-- No recipe was loaded after an order was given. -/
def Stands (a : Orders R) (o : Order R) : Prop := o.loaded = a.sessions.length

instance (a : Orders R) (o : Order R) : Decidable (a.Stands o) :=
  inferInstanceAs (Decidable (o.loaded = a.sessions.length))

/-- What is written down agrees with the machine. -/
structure Fits (a : Orders R) (m : Machine R) : Prop where
  start : a.start.isSome = m.startRequested
  calibration : a.calibration.isSome = m.pendingCalibration.isSome
  visit : a.visit.isSome = m.visit.isWanted
  last : ∀ s, m.executor.session = some s → a.IsLast s
  loaded : ∀ o, a.start = some o ∨ a.calibration = some o ∨ a.visit = some o →
    o.loaded ≤ a.sessions.length
  /-- A start that stands is for the session as it is. -/
  armed : ∀ o, a.start = some o → a.Stands o → m.executor.session = some o.session
  /-- A visit that stands is for the session, wherever its cursor is. -/
  stands : ∀ o, a.calibration = some o ∨ a.visit = some o → a.Stands o →
    ∀ s, m.executor.session = some s → o.session.SameRecipe s

variable {a : Orders R} {m m' : Machine R}

omit [Scalar R] in
theorem Fits.congr (h : a.Fits m) (same : m.SameOrders m') : a.Fits m' where
  start := by rw [same.start]; exact h.start
  calibration := by rw [same.calibration]; exact h.calibration
  visit := by rw [same.visit]; exact h.visit
  last := by rw [same.session]; exact h.last
  loaded := h.loaded
  armed := by rw [same.session]; exact h.armed
  stands := by rw [same.session]; exact h.stands

omit [Scalar R] in
theorem order_eq {s : Session R} (session : m.executor.session = some s) :
    a.order m = some ⟨a.sessions.length, s⟩ := by
  rw [order, session]
  rfl

/-! ### Periods -/

omit [Scalar R] in
/-- A visit that goes on is the one that has begun or the one that waited to begin. -/
theorem visit_period {o : Order R} (h : (a.period m').visit = some o) :
    a.visit = some o ∨ a.calibration = some o := by
  simp only [period] at h
  split at h
  · rcases Option.or_eq_some_iff.mp h with h | ⟨-, h⟩
    · exact .inl h
    · exact .inr h
  · cases h

omit [Scalar R] in
theorem calibration_period {o : Order R} (h : (a.period m').calibration = some o) :
    a.calibration = some o := by
  simp only [period] at h
  split at h
  · exact h
  · cases h

omit [Scalar R] in
theorem Fits.period (h : a.Fits m) (tends : m.Tends m') (carries : m.Carries m') :
    (a.period m').Fits m' where
  start := by simp [Orders.period, carries.start]
  calibration := tends.isSome_calibration h.calibration
  visit := tends.isSome_visit h.visit h.calibration
  last s' session' := by
    obtain ⟨s, session, same⟩ := carries.session s' session'
    obtain ⟨last, e, same'⟩ := h.last s session
    exact ⟨last, e, same'.trans same⟩
  loaded o ho := by
    rcases ho with ho | ho | ho
    · simp [Orders.period, carries.start] at ho
    · exact h.loaded o (.inr (.inl (calibration_period ho)))
    · exact h.loaded o (.inr (visit_period ho).symm)
  armed o ho := by simp [Orders.period, carries.start] at ho
  stands o ho standing s' session' := by
    obtain ⟨s, session, same⟩ := carries.session s' session'
    have waited : a.calibration = some o ∨ a.visit = some o :=
      ho.elim (fun ho => .inl (calibration_period ho)) fun ho => (visit_period ho).symm
    exact (h.stands o waited standing s session).trans same

/-! ### Commands -/

omit [Scalar R] in
/-- A recipe that is loaded takes the place of the session, and no order that waits is for it. -/
theorem Fits.load (h : a.Fits m) {l : Session R} (session : m'.executor.session = some l)
    (start : m'.startRequested = m.startRequested)
    (calibration : m'.pendingCalibration = m.pendingCalibration) (visit : m'.visit = m.visit) :
    Fits { a with sessions := a.sessions ++ [l] } m' where
  start := by rw [start]; exact h.start
  calibration := by rw [calibration]; exact h.calibration
  visit := by rw [visit]; exact h.visit
  last s session' := by
    obtain rfl := Option.some.inj (session.symm.trans session')
    exact ⟨l, List.getLast?_concat, .refl l⟩
  loaded o ho := (h.loaded o ho).trans (by simp)
  -- an order that waits was given before this recipe was loaded, so it does not stand
  armed o ho standing := by
    have before := h.loaded o (.inl ho)
    rw [Stands, List.length_append, List.length_singleton] at standing
    omega
  stands o ho standing := by
    have before := h.loaded o (.inr ho)
    rw [Stands, List.length_append, List.length_singleton] at standing
    omega

theorem Fits.start_command (h : a.Fits m) : (a.command m .start).Fits m.start.2 := by
  rcases m.start_cases with ⟨refused, e⟩ | ⟨ok, x, s, session, same, e⟩
  · rw [command, if_neg refused, e]
    exact h
  · rw [command, if_pos ok, e, order_eq session]
    refine ⟨rfl, h.calibration, h.visit, ?_, ?_, ?_, ?_⟩
    · rw [same, ← session]
      exact h.last
    · rintro o (ho | ho)
      · obtain rfl := Option.some.inj ho
        exact Nat.le_refl _
      · exact h.loaded o (.inr ho)
    · intro o ho _
      obtain rfl := Option.some.inj ho
      exact same
    · rw [same, ← session]
      exact h.stands

omit [Scalar R] in
/-- Taking back the start leaves the visits. -/
theorem Fits.stop (h : a.Fits m) (start : m'.startRequested = false)
    (session : m'.executor.session = m.executor.session)
    (calibration : m'.pendingCalibration = m.pendingCalibration) (visit : m'.visit = m.visit) :
    Fits { a with start := none } m' where
  start := start.symm
  calibration := by rw [calibration]; exact h.calibration
  visit := by rw [visit]; exact h.visit
  last := by rw [session]; exact h.last
  loaded o ho := h.loaded o (.inr (ho.resolve_left nofun))
  armed := nofun
  stands := by rw [session]; exact h.stands

theorem Fits.calibrate (h : a.Fits m) {pin : Pin} (handled : m.Handled (.calibrate pin) m') :
    (a.command m (.calibrate pin)).Fits m' := by
  by_cases accepted : m.accepts (.calibrate pin) = true
  · rw [command, if_pos accepted]
    cases handled with
    | keeps none refused => cases refused.symm.trans accepted
    | asks request none _ visit => exact absurd rfl (visit pin)
    | fails library none refused => cases refused.symm.trans accepted
    | loads library path mode loaded => cases loaded
    | @calibrates s _ _ mode session known =>
      rw [order_eq session]
      refine ⟨h.start, rfl, h.visit, h.last, ?_, h.armed, ?_⟩
      · rintro o (ho | ho | ho)
        · exact h.loaded o (.inl ho)
        · obtain rfl := Option.some.inj ho
          exact Nat.le_refl _
        · exact h.loaded o (.inr (.inr ho))
      · rintro o (ho | ho) standing s' session'
        · obtain rfl := Option.some.inj ho
          obtain rfl := Option.some.inj (session.symm.trans session')
          exact .refl s
        · exact h.stands o (.inr ho) standing s' session'
  · rw [command, if_neg accepted]
    refine h.congr (handled.sameOrders rfl nofun nofun nofun fun _ same => ?_)
    cases same
    exact eq_false_of_ne_true accepted

theorem Fits.load_command (h : a.Fits m) {recipe : String} {line : Option Nat}
    (handled : m.Handled (.load recipe line) m') : (a.command m (.load recipe line)).Fits m' := by
  have quiet (none : m.loads? (.load recipe line) = none) :
      (a.command m (.load recipe line)).Fits m' := by
    rw [command, none, Option.toList_none, List.append_nil]
    exact h.congr (handled.sameOrders none nofun nofun nofun nofun)
  cases handled with
  | keeps none => exact quiet none
  | asks request none => exact quiet none
  | fails library none => exact quiet none
  | loads library path mode loaded _ _ noted =>
    rw [command, loaded]
    obtain ⟨records, files, rfl, -⟩ := noted
    exact h.load rfl rfl rfl rfl

/-- A command keeps what is written down. -/
theorem Fits.command {c : Operator.Command R} {reply : Operator.Reply R} (h : a.Fits m)
    (handled : m.handle c = (.ok reply, m')) : (a.command m c).Fits m' := by
  have did := Machine.handle_eq_ok handled
  cases c with
  | start =>
    cases handled
    exact h.start_command
  | stop | shutdown =>
    cases handled
    exact h.stop rfl rfl rfl rfl
  | jog | head | latch | status => exact h.congr (did.sameOrders rfl nofun nofun nofun nofun)
  | load recipe line => exact h.load_command did
  | calibrate pin => exact h.calibrate did

end Orders

/-! ## Runs -/

namespace Station

variable [Adapter σ]

/-- The observer who writes down the sessions and the orders. -/
def orders : Observer σ R (Orders R) where
  initial s := ⟨s.machine.executor.session.toList, none, none, none⟩
  follow s e a :=
    match e with
    | .command c => a.command s.machine c
    | .tick => a.period s.machine.tick.2
    | .dispatch | .world _ _ _ _ => a

variable {s₀ s s' : Station σ R} {a : Orders R} {e : Event σ R}

/-- The orders agree with a machine in order. -/
structure Heeds (s : Station σ R) (a : Orders R) : Prop where
  orderly : s.machine.Orderly
  attentive : s.machine.Attentive
  fits : a.Fits s.machine

theorem perform_heeds (h : s.Heeds a) (step : s.perform e = (.ok (), s')) :
    s'.Heeds (orders.follow s e a) := by
  have orderly := perform_orderly h.orderly step
  cases e with
  | command c =>
    have handled := command_eq_ok step
    refine ⟨orderly, h.attentive.handle handled, ?_⟩
    rcases did : s.machine.handle c with ⟨_ | reply, m'⟩
    · simp only [perform, did] at step
      cases step
    · simp only [perform, did] at step
      cases step
      exact h.fits.command did
  | tick =>
    have ticked := tick_eq_ok step
    have tends := Machine.tick_tends h.attentive (fun mode => (h.orderly.wind mode).2) ticked
    refine ⟨orderly, tends.attentive, ?_⟩
    simp only [orders, ticked]
    exact h.fits.period tends (Machine.tick_carries h.orderly ticked)
  | dispatch =>
    cases step
    exact ⟨orderly, ⟨h.attentive.visit, h.attentive.calibration⟩, h.fits.congr ⟨rfl, rfl, rfl, rfl⟩⟩
  | world plc files clock now =>
    cases step
    exact ⟨orderly, ⟨h.attentive.visit, h.attentive.calibration⟩, h.fits.congr ⟨rfl, rfl, rfl, rfl⟩⟩

/-- What is written down agrees with the machine in every run. -/
theorem Run.heeds (begins : s₀.Begins) (run : Run orders s₀ s a) : s.Heeds a := by
  refine run.invariant ?_ fun _ _ _ _ h step => perform_heeds h step
  obtain ⟨mode, queue, start, manual, calibration, visit, -⟩ := begins.atStart
  refine ⟨.of_stop mode queue start, ⟨fun _ => visit, fun _ => calibration⟩, ?_⟩
  refine ⟨start.symm, by rw [calibration]; rfl, by rw [visit]; rfl, fun s session => ?_, nofun,
    nofun, nofun⟩
  refine ⟨s, ?_, .refl s⟩
  simp only [orders, session]
  rfl

/-- Winding begins on a start that was answered with `ok`, with the session that was loaded last; that
is the session of the start unless a recipe was loaded since. A visit queues one move, to where the
pin is in the session that was loaded last; that is the session of the visit, wherever its cursor is,
unless a recipe was loaded since. -/
theorem Run.acts_on_orders (begins : s₀.Begins) (run : Run orders s₀ s a)
    (step : s.perform .tick = (.ok (), s')) :
    (s.machine.mode ≠ .wind → s'.machine.mode = .wind →
      ∃ o sess, a.start = some o ∧ s'.machine.executor.session = some sess ∧ a.IsLast sess ∧
        (a.Stands o → sess = o.session)) ∧
    (s.machine.mode = .calibration → s.machine.queue.submitted < s'.machine.queue.submitted →
      ∃ o pin sess target limits, a.visit = some o ∧ s.machine.visit = .wanted pin ∧
        s.machine.executor.session = some sess ∧ a.IsLast sess ∧
        sess.table.resolve pin = .ok target ∧
        s'.machine.queue.entries = s.machine.queue.entries ++
          [⟨s.machine.queue.submitted, none, .move target limits⟩] ∧
        (a.Stands o → o.session.SameRecipe sess ∧ o.session.table.resolve pin = .ok target)) := by
  have heeds := run.heeds begins
  have ticked := tick_eq_ok step
  refine ⟨fun mode winds => ?_, fun mode pushed => ?_⟩
  · obtain ⟨start, same⟩ := Machine.tick_enters_wind heeds.orderly mode ticked winds
    obtain ⟨sess, session⟩ := Option.isSome_iff_exists.mp (heeds.orderly.start start).2.1
    obtain ⟨o, order⟩ := Option.isSome_iff_exists.mp (heeds.fits.start.trans start)
    refine ⟨o, sess, order, same.trans session, heeds.fits.last sess session, fun standing => ?_⟩
    exact Option.some.inj (session.symm.trans (heeds.fits.armed o order standing))
  · obtain ⟨pin, sess, target, limits, wanted, session, resolved, entries⟩ :=
      Machine.tick_seeks mode ticked pushed
    obtain ⟨o, order⟩ : ∃ o, a.visit = some o := by
      rw [← Option.isSome_iff_exists, heeds.fits.visit, wanted]
      rfl
    refine ⟨o, pin, sess, target, limits, order, wanted, session, heeds.fits.last sess session,
      resolved, entries, fun standing => ?_⟩
    have same := heeds.fits.stands o (.inr order) standing sess session
    exact ⟨same, same.table ▸ resolved⟩

/-- The bench with a pin in the calibration of its layer. -/
def benchPinned : Station Bench.Plc Whole :=
  { Bench.station with
    machine := { Bench.machine with
      executor := { Bench.executor with
        library := ⟨[], [("X", ⟨"X", ⟨0⟩, ⟨0⟩, [(.front 1, ⟨⟨3⟩, ⟨4⟩, ⟨0⟩⟩)]⟩)]⟩ } } }

theorem benchPinned_begins : benchPinned.Begins :=
  ⟨benchPinned.machine, ⟨rfl, rfl, rfl, rfl, rfl, rfl, rfl⟩, .inl rfl⟩

/-- On the bench, a start is for the recipe that was loaded before it, and a visit goes to the pin of
that recipe. -/
theorem bench_acts_on_orders :
    (∃ (s s' : Station Bench.Plc Whole) (a : Orders Whole), Run orders benchPinned s a ∧
      s.perform .tick = (.ok (), s') ∧ s'.machine.mode = .wind ∧
      ∃ o, a.start = some o ∧ s'.machine.executor.session = some o.session) ∧
    ∃ (s s' : Station Bench.Plc Whole) (a : Orders Whole), Run orders benchPinned s a ∧
      s.perform .tick = (.ok (), s') ∧ s'.machine.queue.length = 1 ∧
      ∃ o pin target, a.visit = some o ∧ s.machine.visit = .wanted pin ∧
        o.session.table.resolve pin = .ok target := by
  have winds : (benchPinned.performAll orders (orders.initial benchPinned)
      [.command (.load "/recipe" none), .dispatch, .command .start]).any (fun (s, a) =>
        (s.perform .tick).1.isOk ∧ s.machine.mode = .stop ∧
          (s.perform .tick).2.machine.mode = .wind ∧
          a.start.all fun o => a.Stands o) = true := by
    decide +kernel
  have seeks : (benchPinned.performAll orders (orders.initial benchPinned)
      [.command (.load "/recipe" none), .dispatch, .command (.calibrate (.front 1)), .tick]).any
        (fun (s, a) => (s.perform .tick).1.isOk ∧ s.machine.mode = .calibration ∧
          s.machine.queue.submitted < (s.perform .tick).2.machine.queue.submitted ∧
          (s.perform .tick).2.machine.queue.length = 1 ∧
          a.visit.all fun o => a.Stands o) = true := by
    decide +kernel
  constructor
  · obtain ⟨⟨s, a⟩, performed, facts⟩ := (Option.any_eq_true ..).mp winds
    obtain ⟨ok, mode, wind, standing⟩ := of_decide_eq_true facts
    have run := Run.start.performAll performed
    have step := perform_of_isOk ok
    obtain ⟨o, sess, start, session, -, acts⟩ :=
      (run.acts_on_orders benchPinned_begins step).1 (by rw [mode]; decide) wind
    rw [start] at standing
    rw [acts (of_decide_eq_true standing)] at session
    exact ⟨s, _, a, run, step, wind, o, start, session⟩
  · obtain ⟨⟨s, a⟩, performed, facts⟩ := (Option.any_eq_true ..).mp seeks
    obtain ⟨ok, mode, pushed, one, standing⟩ := of_decide_eq_true facts
    have run := Run.start.performAll performed
    have step := perform_of_isOk ok
    obtain ⟨o, pin, sess, target, limits, visit, wanted, -, -, -, -, acts⟩ :=
      (run.acts_on_orders benchPinned_begins step).2 mode pushed
    rw [visit] at standing
    exact ⟨s, _, a, run, step, one, o, pin, target, visit, wanted,
      (acts (of_decide_eq_true standing)).2⟩

/-- On the bench, winding begins with a recipe that was loaded after the start, so that not every
order acts on the session that it was given for. -/
theorem bench_start_overtaken :
    ¬∀ (s s' : Station Bench.Plc Whole) (a : Orders Whole), Run orders Bench.station s a →
      s.perform .tick = (.ok (), s') →
      (s.machine.mode ≠ .wind → s'.machine.mode = .wind → ∃ o, a.start = some o ∧ a.Stands o) ∧
      (s.machine.mode = .calibration → s.machine.queue.submitted < s'.machine.queue.submitted →
        ∃ o pin target limits, a.visit = some o ∧ s.machine.visit = .wanted pin ∧
          o.session.table.resolve pin = .ok target ∧
          s'.machine.queue.entries = s.machine.queue.entries ++
            [⟨s.machine.queue.submitted, none, .move target limits⟩]) := by
  intro acts
  have reached : (Bench.station.performAll orders (orders.initial Bench.station)
      [.dispatch, .command (.load "/recipe" none), .command .start,
        .command (.load "/recipe" (some 1))]).any (fun (s, a) =>
        (s.perform .tick).1.isOk ∧ s.machine.mode = .stop ∧
          (s.perform .tick).2.machine.mode = .wind ∧
          a.start.all fun o => ¬a.Stands o) = true := by
    decide +kernel
  obtain ⟨⟨s, a⟩, performed, facts⟩ := (Option.any_eq_true ..).mp reached
  obtain ⟨ok, mode, wind, late⟩ := of_decide_eq_true facts
  obtain ⟨o, start, standing⟩ := (acts s _ a (Run.start.performAll performed)
    (perform_of_isOk ok)).1 (by rw [mode]; decide) wind
  rw [start] at late
  exact of_decide_eq_true late standing

end Station

end Winding

import Winding.Proofs.Machine.Requests
import Winding.Proofs.Station.Runs

/-!
# What a stop cancels

An observer of a station numbers the requests for motion outside winding that are accepted, and
writes down which of them wait and which were queued (`Station.tickets`). A stop cancels all that wait
in manual motion, once a shutdown was asked for, and when none waits for a mode to begin
(`Machine.HeedsStop`). In a stopped machine it cancels nothing else: what waits there is queued by the
next two periods (`Station.Run.stop_cancels`).
-/

namespace Winding

variable {σ R : Type}

/-- The numbers of the requests that were accepted. -/
structure Tickets where
  /-- How many were accepted so far. -/
  issued : Nat
  /-- Manual motion that waits, oldest first. -/
  manual : List Nat
  /-- The visit to a pin that waits to begin. -/
  calibration : Option Nat
  /-- The visit that has begun, until its move is queued. -/
  visit : Option Nat
  /-- Requests whose motion was queued, oldest first. -/
  queued : List Nat
deriving DecidableEq, Repr

namespace Tickets

/-- The requests that wait. -/
def waiting (t : Tickets) : List Nat := t.manual ++ t.calibration.toList ++ t.visit.toList

/-- A request was accepted. A visit takes the place of one that waits. -/
def accept (t : Tickets) : Operator.Command R → Tickets
  | .calibrate _ => { t with issued := t.issued + 1, calibration := some t.issued }
  | _ => { t with issued := t.issued + 1, manual := t.manual ++ [t.issued] }

/-- The request whose motion is queued when any is. -/
def next (t : Tickets) : Mode → List Nat
  | .manual => t.manual.head?.toList
  | .calibration => t.visit.toList
  | .stop | .wind => []

/-- The machine has had a period. Manual requests leave in the order in which they came. -/
def period (t : Tickets) (m m' : Machine R) : Tickets where
  issued := t.issued
  manual := t.manual.drop (t.manual.length - m'.pendingManual.length)
  calibration := if m'.pendingCalibration.isSome then t.calibration else none
  visit := if m'.visit.isWanted then t.visit.or t.calibration else none
  queued := t.queued ++ if m.queue.length < m'.queue.length then t.next m.mode else []

/-- The numbers agree with what waits in the machine. -/
structure Fits (t : Tickets) (m : Machine R) : Prop where
  manual : t.manual.length = m.pendingManual.length
  calibration : t.calibration.isSome = m.pendingCalibration.isSome
  visit : t.visit.isSome = m.visit.isWanted
  issued : ∀ n ∈ t.waiting, n < t.issued

/-- No request before the `N`th is queued any more. -/
structure Cancels (t : Tickets) (N : Nat) (m : Machine R) : Prop where
  manual : (∀ n ∈ t.manual, N ≤ n) ∨ m.mode = .manual ∧ m.stopRequested = true ∨
    m.mode ≠ .manual ∧ m.shutdownRequested = true
  calibration : (∀ n ∈ t.calibration, N ≤ n) ∨ m.shutdownRequested = true
  visit : (∀ n ∈ t.visit, N ≤ n) ∨ m.stopRequested = true
  issued : N ≤ t.issued

variable {t : Tickets} {N : Nat} {m m' : Machine R}

/-! ## Periods -/

theorem mem_waiting {n : Nat} :
    n ∈ t.waiting ↔ n ∈ t.manual ∨ t.calibration = some n ∨ t.visit = some n := by
  simp [waiting]

/-- Nothing begins to wait in a period. -/
theorem waiting_period {n : Nat} (h : n ∈ (t.period m m').waiting) : n ∈ t.waiting := by
  rw [mem_waiting] at h ⊢
  rcases h with h | h | h
  · exact .inl (List.mem_of_mem_drop h)
  · simp only [period] at h
    split at h
    · exact .inr (.inl h)
    · cases h
  · simp only [period] at h
    split at h
    · rcases Option.or_eq_some_iff.mp h with h | ⟨-, h⟩
      · exact .inr (.inr h)
      · exact .inr (.inl h)
    · cases h

theorem period_queued_of_grown (grown : m.queue.length < m'.queue.length) :
    (t.period m m').queued = t.queued ++ t.next m.mode :=
  congrArg (t.queued ++ ·) (if_pos grown)

theorem period_queued_of_idle (idle : t.next m.mode = []) :
    (t.period m m').queued = t.queued := by
  simp [period, idle]

theorem Fits.visit_none (h : t.Fits m) (unwanted : m.visit = .none) : t.visit = none := by
  rw [← Option.isNone_iff_eq_none, ← Option.isSome_eq_false_iff, h.visit, unwanted]
  rfl

theorem Fits.calibration_eq_none_iff (h : t.Fits m) :
    t.calibration = none ↔ m.pendingCalibration = none := by
  rw [← Option.not_isSome_iff_eq_none, h.calibration, Option.not_isSome_iff_eq_none]

/-- Requests wait on when the machine keeps them. -/
theorem Fits.period_manual (h : t.Fits m) (same : m'.pendingManual = m.pendingManual) :
    (t.period m m').manual = t.manual := by
  simp [Tickets.period, same, h.manual]

theorem Fits.period_calibration (h : t.Fits m)
    (same : m'.pendingCalibration = m.pendingCalibration) :
    (t.period m m').calibration = t.calibration := by
  simp only [Tickets.period, same, ← h.calibration]
  split
  · rfl
  · next none => exact (Option.not_isSome_iff_eq_none.mp none).symm

theorem Fits.period (h : t.Fits m) (tends : m.Tends m') : (t.period m m').Fits m' where
  manual := by
    have le := tends.manual
    rw [Tickets.period, List.length_drop, h.manual]
    omega
  calibration := tends.isSome_calibration h.calibration
  visit := tends.isSome_visit h.visit h.calibration
  issued n hn := h.issued n (waiting_period hn)

/-- A cancelled request stays cancelled in a period. -/
theorem Cancels.period (h : t.Cancels N m) (fits : t.Fits m) (tends : m.Tends m') :
    (t.period m m').Cancels N m' where
  manual := by
    rcases h.manual with all | ⟨mode, stop⟩ | ⟨mode, shutdown⟩
    · exact .inl fun n hn => all n (List.mem_of_mem_drop hn)
    · refine .inl fun n hn => ?_
      simp [Tickets.period, tends.stop mode stop] at hn
    · exact .inr (.inr ⟨tends.closed mode shutdown, tends.shutdown.trans shutdown⟩)
  calibration := by
    rcases h.calibration with all | shutdown
    · refine .inl fun n hn => ?_
      simp only [Tickets.period] at hn
      split at hn
      · exact all n hn
      · cases hn
    · exact .inr (tends.shutdown.trans shutdown)
  visit := by
    simp only [Tickets.period]
    split
    · next wanted =>
      rcases tends.visit wanted with ⟨before, stop⟩ | ⟨none, some, shutdown⟩
      · obtain ⟨k, visit⟩ := Option.isSome_iff_exists.mp (fits.visit.trans before)
        rw [visit, Option.some_or, stop, ← visit]
        exact h.visit
      · rw [fits.visit_none none, Option.none_or]
        refine .inl (h.calibration.resolve_right fun closed => ?_)
        cases shutdown.symm.trans closed
    · exact .inl nofun
  issued := h.issued

/-- What is queued in a period comes after what was cancelled. -/
theorem Cancels.queued (h : t.Cancels N m) (tends : m.Tends m') :
    ∃ later, (t.period m m').queued = t.queued ++ later ∧ ∀ n ∈ later, N ≤ n := by
  refine ⟨_, rfl, fun n hn => ?_⟩
  split at hn
  · next grown =>
    rcases mode : m.mode with _ | _ | _ | _
    all_goals rw [mode, next] at hn
    · cases hn
    · have stop := tends.queue (.inl mode) grown
      rcases h.manual with all | ⟨-, stop'⟩ | ⟨other, -⟩
      · exact all n (List.mem_of_mem_head? (Option.mem_toList.mp hn))
      · cases stop.symm.trans stop'
      · exact absurd mode other
    · cases hn
    · have stop := tends.queue (.inr mode) grown
      rcases h.visit with all | stop'
      · exact all n (Option.mem_toList.mp hn)
      · cases stop.symm.trans stop'
  · cases hn

/-! ## Commands -/

variable [Scalar R] {c : Operator.Command R}

/-- What is written down for a command. -/
def command (t : Tickets) (m : Machine R) (c : Operator.Command R) : Tickets :=
  if m.accepts c then t.accept c else t

theorem command_of_refused (refused : m.accepts c = false) : t.command m c = t := by
  rw [command, refused]
  rfl

omit [Scalar R] in
theorem accept_manual (motion : ∀ pin, c ≠ .calibrate pin) :
    t.accept c = { t with issued := t.issued + 1, manual := t.manual ++ [t.issued] } := by
  cases c with
  | calibrate pin => exact absurd rfl (motion pin)
  | start | stop | jog | head | latch | load | status | shutdown => rfl

/-- No command queues motion. -/
theorem command_queued (t : Tickets) (m : Machine R) (c : Operator.Command R) :
    (t.command m c).queued = t.queued := by
  unfold command
  split
  · cases c <;> rfl
  · rfl

omit [Scalar R] in
theorem Fits.congr (h : t.Fits m) (manual : m'.pendingManual = m.pendingManual)
    (calibration : m'.pendingCalibration = m.pendingCalibration) (visit : m'.visit = m.visit) :
    t.Fits m' :=
  ⟨manual ▸ h.manual, calibration ▸ h.calibration, visit ▸ h.visit, h.issued⟩

theorem Fits.command (h : t.Fits m) (handled : m.Handled c m') : (t.command m c).Fits m' := by
  have quiet (refused : m.accepts c = false) (manual : m'.pendingManual = m.pendingManual)
      (calibration : m'.pendingCalibration = m.pendingCalibration) (visit : m'.visit = m.visit) :
      (t.command m c).Fits m' := by
    rw [command_of_refused refused]
    exact h.congr manual calibration visit
  rcases handled with
    ⟨-, refused⟩ | - | - | ⟨request, -, accepted, motion, -, -⟩ | ⟨pin, accepted, -, -, -⟩ | - |
    ⟨library, -, refused, noted⟩ | ⟨library, path, mode, loaded, -, -, noted⟩
  · exact quiet refused rfl rfl rfl
  · exact quiet rfl rfl rfl rfl
  · exact quiet rfl rfl rfl rfl
  · rw [Tickets.command, if_pos accepted, accept_manual motion]
    refine ⟨by simp [h.manual], h.calibration, h.visit, fun n hn => ?_⟩
    have old (hn : n ∈ t.waiting) : n < t.issued + 1 := Nat.lt_succ_of_lt (h.issued n hn)
    rcases mem_waiting.mp hn with hn | hn
    · rcases List.mem_append.mp hn with hn | hn
      · exact old (mem_waiting.mpr (.inl hn))
      · exact List.mem_singleton.mp hn ▸ Nat.lt_succ_self _
    · exact old (mem_waiting.mpr (.inr hn))
  · rw [Tickets.command, if_pos accepted]
    refine ⟨h.manual, rfl, h.visit, fun n hn => ?_⟩
    have old (hn : n ∈ t.waiting) : n < t.issued + 1 := Nat.lt_succ_of_lt (h.issued n hn)
    rcases mem_waiting.mp hn with hn | hn | hn
    · exact old (mem_waiting.mpr (.inl hn))
    · exact Option.some.inj hn ▸ Nat.lt_succ_self _
    · exact old (mem_waiting.mpr (.inr (.inr hn)))
  · exact quiet rfl rfl rfl rfl
  · obtain ⟨records, files, rfl, -⟩ := noted
    exact quiet refused rfl rfl rfl
  · obtain ⟨records, files, rfl, -⟩ := noted
    exact quiet (Machine.accepts_of_loads loaded) rfl rfl rfl

omit [Scalar R] in
/-- The same requests wait, and what cancels them still does. -/
theorem Cancels.congr (h : t.Cancels N m) (mode : m'.mode = m.mode)
    (stop : m.stopRequested = true → m'.stopRequested = true)
    (shutdown : m.shutdownRequested = true → m'.shutdownRequested = true) : t.Cancels N m' where
  manual := h.manual.imp_right fun cancelled => by
    rw [mode]
    exact cancelled.imp (And.imp_right stop) (And.imp_right shutdown)
  calibration := h.calibration.imp_right shutdown
  visit := h.visit.imp_right stop
  issued := h.issued

/-- A cancelled request stays cancelled whatever is asked for. -/
theorem Cancels.command (h : t.Cancels N m) (fits : t.Fits m) (attentive : m.Attentive)
    (handled : m.Handled c m') : (t.command m c).Cancels N m' := by
  have quiet (refused : m.accepts c = false) (mode : m'.mode = m.mode)
      (stop : m.stopRequested = true → m'.stopRequested = true)
      (shutdown : m.shutdownRequested = true → m'.shutdownRequested = true) :
      (t.command m c).Cancels N m' := by
    rw [command_of_refused refused]
    exact h.congr mode stop shutdown
  rcases handled with
    ⟨-, refused⟩ | - | ⟨shutdown, mode, -, -⟩ | ⟨request, -, accepted, motion, -, -⟩ |
    ⟨pin, accepted, -, -, -⟩ | - | ⟨library, -, refused, noted⟩ |
    ⟨library, path, mode, loaded, -, -, noted⟩
  · exact quiet refused rfl id id
  · exact quiet rfl rfl (fun _ => rfl) id
  · have none : t.visit = none := fits.visit_none (attentive.visit (by rw [mode]; decide))
    rw [command_of_refused rfl]
    refine ⟨.inl ?_, .inl ?_, .inl ?_, h.issued⟩
    · rcases h.manual with all | ⟨manual, -⟩ | ⟨-, closed⟩
      · exact all
      · cases mode.symm.trans manual
      · cases shutdown.symm.trans closed
    · refine h.calibration.resolve_right fun closed => ?_
      cases shutdown.symm.trans closed
    · rw [none]
      exact nofun
  · rw [Tickets.command, if_pos accepted, accept_manual motion]
    refine ⟨h.manual.imp_left fun all n hn => ?_, h.calibration, h.visit, Nat.le_succ_of_le h.issued⟩
    rcases List.mem_append.mp hn with hn | hn
    · exact all n hn
    · exact List.mem_singleton.mp hn ▸ h.issued
  · rw [Tickets.command, if_pos accepted]
    refine ⟨h.manual, .inl fun n hn => ?_, h.visit, Nat.le_succ_of_le h.issued⟩
    exact Option.some.inj hn ▸ h.issued
  · exact quiet rfl rfl (fun _ => rfl) (fun _ => rfl)
  · obtain ⟨records, files, rfl, -⟩ := noted
    exact quiet refused rfl id id
  · obtain ⟨records, files, rfl, -⟩ := noted
    exact quiet (Machine.accepts_of_loads loaded) rfl id id

end Tickets

/-! ## Stops -/

/-- Everything that waits is cancelled by a stop. -/
def Machine.HeedsStop (m : Machine R) : Prop :=
  m.shutdownRequested = true ∨ m.mode = .manual ∨
    m.pendingManual = [] ∧ m.pendingCalibration = none

/-- The request that waits for the machine to be stopped can be queued, as far as the controller and the
planning go: the visit to a pin, or else the oldest manual motion. -/
def Machine.CanQueue [Scalar R] (m : Machine R) : Prop :=
  m.status.fault? = none ∧
    match m.pendingCalibration, m.pendingManual with
    | some pin, _ => ∃ r, m.executor.seekPin m.queue pin = .ok r
    | none, request :: _ => ∃ r, m.queueRequest request = .ok r
    | none, [] => False

namespace Station

variable [Scalar R] [Adapter σ]

/-- The observer who numbers the requests. -/
def tickets : Observer σ R Tickets where
  initial _ := ⟨0, [], none, none, []⟩
  follow s e t :=
    match e with
    | .command c => t.command s.machine c
    | .tick => t.period s.machine s.machine.tick.2
    | .dispatch | .world _ _ _ _ => t

/-- The requests, their numbers and the machine agree. -/
structure Agrees (s : Station σ R) (t : Tickets) : Prop where
  orderly : s.machine.Orderly
  attentive : s.machine.Attentive
  fits : t.Fits s.machine

variable {s₀ s s' : Station σ R} {t t' : Tickets} {e : Event σ R} {N : Nat}

omit [Scalar R] [Adapter σ] in
/-- No visit waits to be queued but in a visit to a pin. -/
theorem Agrees.visit_none (h : s.Agrees t) (mode : s.machine.mode ≠ .calibration) :
    t.visit = none :=
  h.fits.visit_none (h.attentive.visit mode)

/-- An event keeps the numbers. -/
theorem perform_agrees (h : s.Agrees t) (step : s.perform e = (.ok (), s')) :
    s'.Agrees (tickets.follow s e t) := by
  have orderly := perform_orderly h.orderly step
  cases e with
  | command c =>
    have handled := command_eq_ok step
    exact ⟨orderly, h.attentive.handle handled, h.fits.command handled⟩
  | tick =>
    have ticked := tick_eq_ok step
    have tends := Machine.tick_tends h.attentive (fun mode => (h.orderly.wind mode).2) ticked
    refine ⟨orderly, tends.attentive, ?_⟩
    simp only [tickets, ticked]
    exact h.fits.period tends
  | dispatch =>
    cases step
    exact ⟨orderly, ⟨h.attentive.visit, h.attentive.calibration⟩, h.fits.congr rfl rfl rfl⟩
  | world plc files clock now =>
    cases step
    exact ⟨orderly, ⟨h.attentive.visit, h.attentive.calibration⟩, h.fits.congr rfl rfl rfl⟩

/-- What was cancelled is not queued by an event, and stays cancelled. -/
theorem perform_cancels (h : s.Agrees t) (cancels : t.Cancels N s.machine)
    (step : s.perform e = (.ok (), s')) :
    (tickets.follow s e t).Cancels N s'.machine ∧
      ∃ later, (tickets.follow s e t).queued = t.queued ++ later ∧ ∀ n ∈ later, N ≤ n := by
  have none : ∃ later, t.queued = t.queued ++ later ∧ ∀ n ∈ later, N ≤ n :=
    ⟨[], (List.append_nil _).symm, List.forall_mem_nil _⟩
  cases e with
  | command c =>
    have handled := command_eq_ok step
    refine ⟨cancels.command h.fits h.attentive handled, ?_⟩
    simp only [tickets, Tickets.command_queued]
    exact none
  | tick =>
    have ticked := tick_eq_ok step
    have tends := Machine.tick_tends h.attentive (fun mode => (h.orderly.wind mode).2) ticked
    simp only [tickets, ticked]
    exact ⟨cancels.period h.fits tends, cancels.queued tends⟩
  | dispatch =>
    cases step
    exact ⟨cancels.congr rfl id id, none⟩
  | world plc files clock now =>
    cases step
    exact ⟨cancels.congr rfl id id, none⟩

/-- What was cancelled is never queued. -/
theorem performAll_cancels {es : List (Event σ R)} (h : s.Agrees t)
    (cancels : t.Cancels N s.machine) (performed : s.performAll tickets t es = some (s', t')) :
    ∃ later, t'.queued = t.queued ++ later ∧ ∀ n ∈ later, N ≤ n := by
  induction es generalizing s t with
  | nil =>
    cases performed
    exact ⟨[], (List.append_nil _).symm, List.forall_mem_nil _⟩
  | cons e es ih =>
    obtain ⟨s₁, step, performed⟩ := performAll_cons performed
    obtain ⟨cancels', first, queued, after⟩ := perform_cancels h cancels step
    obtain ⟨later, queued', after'⟩ := ih (perform_agrees h step) cancels' performed
    refine ⟨first ++ later, ?_, List.forall_mem_append.mpr ⟨after, after'⟩⟩
    rw [queued', queued, List.append_assoc]

/-- The numbers agree with the machine in every run. -/
theorem Run.agrees (begins : s₀.Begins) (run : Run tickets s₀ s t) : s.Agrees t := by
  induction run with
  | start =>
    obtain ⟨mode, queue, start, manual, calibration, visit, -⟩ := begins.atStart
    refine ⟨.of_stop mode queue start, ⟨fun _ => visit, fun _ => calibration⟩, ?_⟩
    exact ⟨by rw [manual]; rfl, by rw [calibration]; rfl, by rw [visit]; rfl, nofun⟩
  | next run step ih => exact perform_agrees ih step

/-- The station after a stop. -/
def stopped (s : Station σ R) : Station σ R := (s.perform (.command .stop)).2

theorem cancels_stopped (h : s.Agrees t) (heeds : s.machine.HeedsStop) :
    t.Cancels t.issued s.stopped.machine := by
  have noVisit (calibration : s.machine.pendingCalibration = none) :
      ∀ n ∈ t.calibration, t.issued ≤ n := by
    rw [h.fits.calibration_eq_none_iff.mpr calibration]
    exact nofun
  refine ⟨?_, ?_, .inr rfl, Nat.le_refl _⟩
  · rcases heeds with shutdown | manual | ⟨manual, -⟩
    · by_cases mode : s.machine.mode = .manual
      · exact .inr (.inl ⟨mode, rfl⟩)
      · exact .inr (.inr ⟨mode, shutdown⟩)
    · exact .inr (.inl ⟨manual, rfl⟩)
    · have none : t.manual = [] := by
        rw [← List.length_eq_zero_iff, h.fits.manual, manual]
        rfl
      rw [none]
      exact .inl nofun
  · rcases heeds with shutdown | manual | ⟨-, calibration⟩
    · exact .inr shutdown
    · exact .inl (noVisit (h.attentive.calibration (.inl manual)))
    · exact .inl (noVisit calibration)

/-- Without a shutdown and a start, a stopped machine queues in two periods what waits first. -/
theorem queued_at_rest (h : s.Agrees t) (mode : s.machine.mode = .stop)
    (shutdown : s.machine.shutdownRequested = false) (start : s.machine.startRequested = false)
    (can : s.machine.CanQueue)
    (performed : s.performAll tickets t [.tick, .tick] = some (s', t')) :
    ∃ n ∈ t.waiting, t'.queued = t.queued ++ [n] := by
  obtain ⟨s₁, first, performed⟩ := performAll_cons performed
  obtain ⟨s₂, second, performed⟩ := performAll_cons performed
  cases performed
  have ticked := tick_eq_ok first
  have ticked' := tick_eq_ok second
  obtain ⟨visits, moves⟩ := Machine.tick_stop_turns mode shutdown start ticked
  simp only [tickets, ticked, ticked']
  have waited : (t.period s.machine s₁.machine).queued = t.queued := by
    refine Tickets.period_queued_of_idle ?_
    rw [mode]
    rfl
  -- The first period begins a mode, the second one queues what that mode would queue next.
  have queued {n : Nat} (grown : s₁.machine.queue.length < s'.machine.queue.length)
      (next : (t.period s.machine s₁.machine).next s₁.machine.mode = [n]) :
      ((t.period s.machine s₁.machine).period s₁.machine s'.machine).queued = t.queued ++ [n] := by
    rw [Tickets.period_queued_of_grown grown, waited, next]
  obtain ⟨clear, can⟩ := can
  rcases asked : s.machine.pendingCalibration with _ | pin
  · rw [asked] at can
    rcases manual : s.machine.pendingManual with _ | ⟨request, later⟩
    · rw [manual] at can
      exact can.elim
    · rw [manual] at can
      obtain ⟨r, possible⟩ := can
      have turns := moves asked (by rw [manual]; nofun)
      obtain ⟨n, rest, numbers⟩ : ∃ n rest, t.manual = n :: rest := by
        have length := h.fits.manual
        rw [manual] at length
        exact List.exists_cons_of_length_eq_add_one length
      refine ⟨n, Tickets.mem_waiting.mpr (.inl (numbers ▸ List.mem_cons_self)),
        queued (turns.queues_manual clear manual possible ticked') ?_⟩
      rw [turns.mode, Tickets.next, h.fits.period_manual turns.manual, numbers]
      rfl
  · rw [asked] at can
    obtain ⟨r, possible⟩ := can
    obtain ⟨turns, wanted⟩ := visits pin asked
    have absent : t.visit = none := h.visit_none (by rw [mode]; decide)
    obtain ⟨n, calibration⟩ : ∃ n, t.calibration = some n := by
      rw [← Option.isSome_iff_exists, h.fits.calibration, asked]
      rfl
    have visit : (t.period s.machine s₁.machine).visit = some n := by
      rw [Tickets.period, wanted, absent, calibration]
      rfl
    refine ⟨n, Tickets.mem_waiting.mpr (.inr (.inl calibration)),
      queued (turns.queues_visit clear wanted possible ticked') ?_⟩
    rw [turns.mode, Tickets.next, visit]
    rfl

/-- A stop does not keep a stopped machine from queueing what waits first. -/
theorem queued_after_stop (h : s.Agrees t) (mode : s.machine.mode = .stop)
    (shutdown : s.machine.shutdownRequested = false) (can : s.machine.CanQueue)
    (performed : s.stopped.performAll tickets t [.tick, .tick] = some (s', t')) :
    ∃ n ∈ t.waiting, t'.queued = t.queued ++ [n] :=
  queued_at_rest (s := s.stopped) (perform_agrees (e := .command .stop) h rfl) mode shutdown rfl can
    performed

/-- Winding, or a visit to a pin, that is stopped leaves the requests that wait. -/
theorem waits_after_stop (h : s.Agrees t) (mode : s.machine.mode ≠ .stop)
    (heeds : ¬s.machine.HeedsStop)
    (performed : s.stopped.performAll tickets t [.tick] = some (s', t')) :
    t'.manual = t.manual ∧ t'.calibration = t.calibration ∧ s.machine.WaitsOn s'.machine := by
  obtain ⟨s₁, first, performed⟩ := performAll_cons performed
  cases performed
  have ticked := tick_eq_ok first
  have fits : t.Fits s.stopped.machine := h.fits.congr rfl rfl rfl
  have working : s.machine.mode = .wind ∧ s.machine.executor.state ≠ .idle ∨
      s.machine.mode = .calibration := by
    rcases wind : s.machine.mode with _ | _ | _ | _
    · exact absurd wind mode
    · exact absurd (.inr (.inl wind)) heeds
    · exact .inl ⟨rfl, (h.orderly.wind wind).2⟩
    · exact .inr rfl
  obtain ⟨manual, calibration, mode', stop⟩ :=
    Machine.tick_waitsOn (m := s.stopped.machine) working ticked
  simp only [tickets, ticked]
  exact ⟨fits.period_manual manual, fits.period_calibration calibration, manual, calibration,
    mode', stop⟩

/-- Whatever happens after a stop, only requests that are accepted after it are queued. -/
def StopCancels (s : Station σ R) (t : Tickets) : Prop :=
  ∀ es s' t', s.stopped.performAll tickets t es = some (s', t') →
    ∃ later, t'.queued = t.queued ++ later ∧ ∀ n ∈ later, t.issued ≤ n

/-- A stop that is heeded cancels everything that was accepted before it. When it is not heeded,
a stopped machine still queues, in the next two periods, the request that waits first, unless there is
a fault or the request cannot be planned; winding and visits to pins leave what waits until the machine
is stopped, and has forgotten that it was asked to stop. -/
theorem Run.stop_cancels (begins : s₀.Begins) (run : Run tickets s₀ s t) :
    (s.machine.HeedsStop → s.StopCancels t) ∧
    (¬s.machine.HeedsStop →
      (s.machine.mode = .stop → s.machine.CanQueue → ∀ s' t',
        s.stopped.performAll tickets t [.tick, .tick] = some (s', t') →
        ∃ n < t.issued, t'.queued = t.queued ++ [n]) ∧
      (s.machine.mode ≠ .stop → ∀ s' t',
        s.stopped.performAll tickets t [.tick] = some (s', t') →
        t'.manual = t.manual ∧ t'.calibration = t.calibration ∧ s.machine.WaitsOn s'.machine)) := by
  have agrees := run.agrees begins
  have stopped : s.stopped.Agrees t := perform_agrees (e := .command .stop) agrees rfl
  refine ⟨fun heeds es s' t' performed => ?_, fun heeds => ⟨fun mode can s' t' performed => ?_, ?_⟩⟩
  · exact performAll_cancels stopped (cancels_stopped agrees heeds) performed
  · have shutdown : s.machine.shutdownRequested = false :=
      eq_false_of_ne_true fun shutdown => heeds (.inl shutdown)
    obtain ⟨n, waits, queued⟩ := queued_after_stop agrees mode shutdown can performed
    exact ⟨n, agrees.fits.issued n waits, queued⟩
  · exact fun mode s' t' performed => waits_after_stop agrees mode heeds performed

/-- A jog on the bench. -/
def benchJog : Event Bench.Plc Whole := .command (.jog ⟨⟨3⟩, ⟨4⟩, ⟨0⟩⟩ none)

/-- In manual motion on the bench, a stop cancels the second of two jogs. -/
theorem bench_stop_cancels :
    ∃ (s : Station Bench.Plc Whole) (t : Tickets), Run tickets Bench.station s t ∧
      t.queued = [0] ∧ t.manual = [1] ∧ s.machine.HeedsStop ∧ s.StopCancels t := by
  have reached : (Bench.station.performAll tickets (tickets.initial Bench.station)
      [.dispatch, benchJog, benchJog, .tick, .tick]).any (fun (s, t) =>
        t.queued = [0] ∧ t.manual = [1] ∧ s.machine.mode = .manual) = true := by
    decide +kernel
  obtain ⟨⟨s, t⟩, performed, facts⟩ := (Option.any_eq_true ..).mp reached
  obtain ⟨queued, manual, mode⟩ := of_decide_eq_true facts
  have run := Run.start.performAll performed
  have heeds : s.machine.HeedsStop := .inr (.inl mode)
  exact ⟨s, t, run, queued, manual, heeds, (run.stop_cancels Bench.station_begins).1 heeds⟩

/-- On the bench, a jog that was accepted before a stop in the same period is queued after it. -/
theorem bench_stop_missed :
    ¬∀ (s : Station Bench.Plc Whole) (t : Tickets), Run tickets Bench.station s t →
      s.StopCancels t := by
  intro cancels
  have reached : (Bench.station.performAll tickets (tickets.initial Bench.station)
      [.dispatch, benchJog]).any (fun (s, t) => t.issued = 1 ∧ t.queued = [] ∧
        (s.stopped.performAll tickets t [.tick, .tick]).any (fun (_, t') =>
          t'.queued = [0])) = true := by
    decide +kernel
  obtain ⟨⟨s, t⟩, performed, facts⟩ := (Option.any_eq_true ..).mp reached
  obtain ⟨issued, none, after⟩ := of_decide_eq_true facts
  obtain ⟨⟨s', t'⟩, performed', queued⟩ := (Option.any_eq_true ..).mp after
  obtain ⟨later, e, new⟩ := cancels s t (Run.start.performAll performed) _ s' t' performed'
  rw [of_decide_eq_true queued, none, List.nil_append] at e
  have impossible := new 0 (e ▸ List.mem_singleton_self 0)
  omega

end Station

end Winding

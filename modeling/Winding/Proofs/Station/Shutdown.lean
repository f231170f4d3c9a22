import Winding.Proofs.Machine.Closing
import Winding.Proofs.Station.Runs

/-!
# A shutdown is final

After a shutdown nothing is pushed any more, whatever commands, cycles, faults and failures follow,
and a machine that has stopped stays stopped (`Station.shutdown_final`).
-/

namespace Winding

namespace Station

variable {σ R : Type} [Scalar R] [Adapter σ] {s : Station σ R}

/-- The station after events, whether the machine could go on or not. -/
def afterAll (s : Station σ R) (es : List (Event σ R)) : Station σ R :=
  es.foldl (fun s e => (s.perform e).2) s

/-- The machine of the second station comes to its end, with as many pushes as that of the first. -/
structure Ends (s s' : Station σ R) : Prop where
  closing : s'.machine.IsClosing
  submitted : s'.machine.queue.submitted = s.machine.queue.submitted
  mode : s.machine.mode = .stop → s'.machine.mode = .stop

/-- An event pushes nothing after a shutdown. -/
theorem perform_ends (h : s.machine.IsClosing) (e : Event σ R) : s.Ends (s.perform e).2 := by
  have closes {m' : Machine R} (closes : s.machine.Closes m') :
      m'.IsClosing ∧ m'.queue.submitted = s.machine.queue.submitted ∧
        (s.machine.mode = .stop → m'.mode = .stop) := by
    refine ⟨⟨closes.shutdown.trans h.shutdown, closes.ending h.ending⟩, ?_, fun mode => ?_⟩
    · rcases closes.queue with queue | queue <;> rw [queue]
      rfl
    · exact closes.mode.elim (fun same => same.trans mode) id
  cases e with
  | command c =>
    obtain ⟨closing, submitted, mode⟩ := closes (Machine.handle_closes h.shutdown c)
    exact ⟨closing, submitted, mode⟩
  | tick =>
    obtain ⟨closing, submitted, mode⟩ := closes (Machine.tick_closes h)
    exact ⟨closing, submitted, mode⟩
  | dispatch =>
    obtain ⟨k, -, -, -, submitted, -⟩ := s.dispatch_retires
    exact ⟨⟨h.shutdown, h.ending.imp_right fun idle => idle.congr rfl rfl rfl rfl⟩, submitted, id⟩
  | world plc files clock now =>
    exact ⟨⟨h.shutdown, h.ending.imp_right fun idle => idle.congr rfl rfl rfl rfl⟩, rfl, id⟩

theorem afterAll_ends (h : s.machine.IsClosing) (es : List (Event σ R)) :
    s.Ends (s.afterAll es) := by
  induction es generalizing s with
  | nil => exact ⟨h, rfl, id⟩
  | cons e es ih =>
    have first := perform_ends h e
    have rest := ih first.closing
    exact ⟨rest.closing, rest.submitted.trans first.submitted, rest.mode ∘ first.mode⟩

/-- Whatever happens after a shutdown, also when the machine fails: nothing was pushed since then, a
period leaves the queue as it is or drops all of it, and once the machine is stopped it stays
stopped. -/
theorem shutdown_final (s : Station σ R) (es : List (Event σ R)) :
    let t := s.afterAll (.command .shutdown :: es)
    t.machine.queue.submitted = s.machine.queue.submitted ∧
    ((t.perform .tick).2.machine.queue = t.machine.queue ∨
      (t.perform .tick).2.machine.queue = t.machine.queue.clear.2) ∧
    (t.machine.mode = .stop → ∀ later, (t.afterAll later).machine.mode = .stop) := by
  intro t
  have closing : (s.perform (.command .shutdown)).2.machine.IsClosing := ⟨rfl, .inl rfl⟩
  have ends := afterAll_ends closing es
  exact ⟨ends.submitted, (Machine.tick_closes ends.closing).queue,
    fun mode later => (afterAll_ends ends.closing later).mode mode⟩

/-- On the bench, a shutdown while the first line is queued lets it run, and nothing starts again. -/
example :
    let s := (Bench.station.afterAll (Bench.winding.take 5)).afterAll
      [.command .shutdown, .tick, .dispatch, .dispatch, .dispatch, .tick, .command .start, .tick]
    s.machine.mode = .stop ∧ s.machine.queue.submitted = 2 ∧ s.machine.queue.completed = 2 := by
  decide +kernel

end Station

end Winding

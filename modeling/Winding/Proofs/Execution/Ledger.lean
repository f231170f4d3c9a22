import Winding.Proofs.Basic
import Winding.Proofs.Execution.Coherence

/-!
# Ledgers

A ledger is what an observer of a session writes down: the last emission of each line, the emissions
that stand, and the recipe motion that was retired. A fault strikes out the lines from the one it
goes back to. The ledger of a course is kept (`Ledger.Kept.run`): the emissions that stand are those
of the lines from the start to the cursor, each once and in order, and their motion is what was
retired followed by what is queued.
-/

namespace Winding

variable {R : Type}

/-- The records of a session. -/
structure Ledger (R : Type) where
  /-- The last emission of each line. -/
  last : Nat → Option (Emission R)
  /-- The emissions that no fault has taken back, in the order in which they were made. -/
  standing : List (Emission R)
  /-- The recipe motion that was retired, without that of lines that a fault has taken back. -/
  retired : List (Nat × Primitive R)

namespace Ledger

/-- The ledger of a session that begins. -/
def empty : Ledger R := ⟨fun _ => none, [], []⟩

/-- A line was queued. -/
def emit (L : Ledger R) (e : Emission R) : Ledger R :=
  { L with
    last := fun i => if i = e.line then some e else L.last i
    standing := L.standing ++ [e] }

/-- Entries left the queue at its front. -/
def retire (L : Ledger R) (es : List (QueueEntry R)) : Ledger R :=
  { L with retired := L.retired ++ Queue.motion es }

/-- A fault went back to a line. -/
def rewind (L : Ledger R) (i : Nat) : Ledger R :=
  { L with
    standing := L.standing.filter fun e => e.line < i
    retired := L.retired.filter fun p => p.1 < i }

/-- What was retired is the motion of the lines from `start` to `stop`, as each was queued last, once
and in order. -/
def Conserves (L : Ledger R) (start stop : Nat) : Prop :=
  ∃ es : List (Emission R), es.map Emission.line = List.range' start (stop - start) ∧
    (∀ e ∈ es, L.last e.line = some e) ∧ L.retired = es.flatMap Emission.motion

variable [Scalar R]

/-- What is written down for a move. -/
def follow (L : Ledger R) (c : Course R) : Move → Ledger R
  | .step => (c.emission?.map L.emit).getD L
  | .complete seq => L.retire (c.queue.taken (c.queue.complete seq).2)
  | .fault => L.rewind (c.fault.executor.line?.getD 0)
  | _ => L

/-- What is written down for moves. -/
def followAll (L : Ledger R) (c : Course R) : List Move → Ledger R
  | [] => L
  | m :: ms => (L.follow c m).followAll (c.after m) ms

theorem follow_quiet (L : Ledger R) (c : Course R) {m : Move} (h : m.isQuiet) :
    L.follow c m = L := by
  cases m <;> first | rfl | cases h

theorem follow_emits (L : Ledger R) {c : Course R} {s : Session R} {plan : LinePlan R}
    (emits : c.emits) (session : c.executor.session = some s)
    (planned : s.planAt? c.executor.context c.executor.pose s.cursor = some plan) :
    L.follow c .step = L.emit ⟨s.cursor, plan⟩ := by
  rw [follow, Course.emission?_eq_some emits session planned]
  rfl

theorem follow_idle (L : Ledger R) {c : Course R} (quiet : c.emits = false) :
    L.follow c .step = L := by
  rw [follow, Course.emission?_eq_none quiet]
  rfl

end Ledger

/-! ## Lists of emissions -/

namespace Emission

/-- A line with motion, and the wire it takes. -/
def inFlight? (e : Emission R) : Option (Nat × R) :=
  if e.primitives.isEmpty then none else some (e.line, e.wire)

theorem line_of_mem_motion {e : Emission R} {p : Nat × Primitive R} (h : p ∈ e.motion) :
    p.1 = e.line := by
  obtain ⟨a, -, rfl⟩ := List.mem_map.mp h
  rfl

/-- The motion of some lines is the motion of their emissions. -/
theorem filter_flatMap_motion (es : List (Emission R)) (select : Nat → Bool) :
    (es.flatMap motion).filter (fun p => select p.1) =
      (es.filter fun e => select e.line).flatMap motion := by
  induction es with
  | nil => rfl
  | cons e es ih =>
    rw [List.flatMap_cons, List.filter_append, ih]
    by_cases h : select e.line
    · have all : e.motion.filter (fun p => select p.1) = e.motion :=
        List.filter_eq_self.mpr fun p hp => by rw [line_of_mem_motion hp, h]
      simp [h, all]
    · have none : e.motion.filter (fun p => select p.1) = [] :=
        List.filter_eq_nil_iff.mpr fun p hp => by rwa [line_of_mem_motion hp]
      simp [h, none]

end Emission

/-! ## Keeping a ledger -/

/-- The ledger agrees with the course. -/
structure Ledger.Kept (L : Ledger R) (c : Course R) (s : Session R) : Prop where
  coherent : c.Coherent s
  /-- The lines from the start to the cursor stand, each once and in order. -/
  lines : L.standing.map Emission.line = List.range' s.start (s.cursor - s.start)
  /-- No motion of theirs is lost, repeated or reordered. -/
  conserved : L.retired ++ Queue.motion c.queue.entries = L.standing.flatMap Emission.motion
  /-- The lines in flight are the newest of those with motion. -/
  inFlight : (c.executor.inFlight.map fun l => (l.index, l.wire)) <:+
    L.standing.filterMap Emission.inFlight?
  last : ∀ e ∈ L.standing, L.last e.line = some e

namespace Ledger.Kept

variable {L : Ledger R} {c : Course R} {s : Session R}

theorem of_session_eq {s' : Session R} (h : L.Kept c s') (e : c.executor.session = some s) :
    L.Kept c s := by
  obtain rfl := Option.some.inj (h.coherent.session.symm.trans e)
  exact h

/-- Once nothing is queued, everything up to the cursor was retired. -/
theorem conserves (h : L.Kept c s) (empty : Queue.motion c.queue.entries = []) :
    L.Conserves s.start s.cursor :=
  ⟨L.standing, h.lines, h.last, by rw [← h.conserved, empty, List.append_nil]⟩

/-- A ledger is kept by what it says about the queue and the lines in flight. -/
theorem congr (h : L.Kept c s) {c' : Course R} (coherent : c'.Coherent s)
    (inFlight : c'.executor.inFlight <:+ c.executor.inFlight)
    (motion : Queue.motion c'.queue.entries = Queue.motion c.queue.entries) : L.Kept c' s where
  coherent := coherent
  lines := h.lines
  conserved := motion ▸ h.conserved
  inFlight := (inFlight.map _).trans h.inFlight
  last := h.last

theorem empty (coherent : c.Coherent s) (start : s.start = s.cursor)
    (inFlight : c.executor.inFlight = []) (motion : Queue.motion c.queue.entries = []) :
    Ledger.empty.Kept c s where
  coherent := coherent
  lines := by simp [Ledger.empty, start]
  conserved := by simp [Ledger.empty, motion]
  inFlight := by simp [inFlight]
  last := nofun

/-- A line that is queued is written down. -/
theorem emit (h : L.Kept c s) {plan : LinePlan R} {c' : Course R}
    (coherent : c'.Coherent { s with cursor := s.cursor + 1 })
    (inFlight : c'.executor.inFlight = if plan.primitives.isEmpty then c.executor.inFlight
      else c.executor.inFlight ++ [⟨s.cursor, plan.wire, c.executor.pose⟩])
    (motion : Queue.motion c'.queue.entries =
      Queue.motion c.queue.entries ++ plan.primitives.map fun p => (s.cursor, p)) :
    (L.emit ⟨s.cursor, plan⟩).Kept c' { s with cursor := s.cursor + 1 } where
  coherent := coherent
  lines := by
    have start_le := h.coherent.start_le
    rw [Ledger.emit, List.map_append, h.lines, List.map_singleton]
    rw [show s.cursor + 1 - s.start = s.cursor - s.start + 1 by omega, List.range'_1_concat,
      show s.start + (s.cursor - s.start) = s.cursor by omega]
  conserved := by
    rw [motion, ← List.append_assoc]
    simp only [Ledger.emit, List.flatMap_append, h.conserved, List.flatMap_singleton]
    rfl
  inFlight := by
    rw [inFlight, Ledger.emit, List.filterMap_append]
    by_cases empty : plan.primitives.isEmpty
    · have none : Emission.inFlight? ⟨s.cursor, plan⟩ = none := if_pos empty
      rw [List.filterMap_cons_none none, List.filterMap_nil, List.append_nil, if_pos empty]
      exact h.inFlight
    · have some : Emission.inFlight? ⟨s.cursor, plan⟩ = some (s.cursor, plan.wire) := if_neg empty
      obtain ⟨earlier, e⟩ := h.inFlight
      rw [List.filterMap_cons_some some, List.filterMap_nil, if_neg empty, ← e]
      exact ⟨earlier, by simp⟩
  last e he := by
    simp only [Ledger.emit, List.mem_append, List.mem_singleton] at he ⊢
    rcases he with he | rfl
    · have line : e.line ∈ List.range' s.start (s.cursor - s.start) :=
        h.lines ▸ List.mem_map_of_mem he
      have start_le := h.coherent.start_le
      have := List.mem_range'_1.mp line
      rw [if_neg (by omega)]
      exact h.last e he
    · rw [if_pos rfl]

/-- Entries that leave the queue are written down. -/
theorem retires (h : L.Kept c s) {q : Queue R} (hq : c.queue.Retires q) :
    (L.retire (c.queue.taken q)).Kept ⟨c.executor, q⟩ s where
  coherent := h.coherent.retires hq
  lines := h.lines
  conserved := by
    have part := h.conserved
    rw [hq.entries_eq, Queue.motion_append, ← List.append_assoc] at part
    exact part
  inFlight := h.inFlight
  last := h.last

/-- What a fault takes back is struck out. -/
theorem rewind (h : L.Kept c s) {i : Nat} {c' : Course R}
    (coherent : c'.Coherent { s with cursor := i }) (le : i ≤ s.cursor)
    (inFlight : c'.executor.inFlight = []) (motion : Queue.motion c'.queue.entries = [])
    (queue : ∀ p ∈ Queue.motion c.queue.entries, i ≤ p.1) :
    (L.rewind i).Kept c' { s with cursor := i } where
  coherent := coherent
  lines := by
    have start_le : s.start ≤ i := coherent.start_le
    have lines : (L.standing.filter fun e => e.line < i).map Emission.line =
        (L.standing.map Emission.line).filter fun k => k < i := by
      rw [List.filter_map]
      rfl
    rw [Ledger.rewind, lines, h.lines, filter_lt_range' start_le (by omega)]
  conserved := by
    have part := congrArg (List.filter fun p => p.1 < i) h.conserved
    have queued : (Queue.motion c.queue.entries).filter (fun p => p.1 < i) = [] :=
      List.filter_eq_nil_iff.mpr fun p hp => by simpa using queue p hp
    rw [List.filter_append, queued, Emission.filter_flatMap_motion _ fun k => k < i] at part
    rw [motion]
    exact part
  inFlight := by simp [inFlight]
  last e he := h.last e (List.mem_filter.mp he).1

variable [Scalar R]

theorem step (h : L.Kept c s) :
    ∃ i, (L.follow c .step).Kept (c.after .step) { s with cursor := i } := by
  have coherent := h.coherent.step
  rcases c.step_cases with ⟨s', plan, q', session, -, planned, pushed, emits, e⟩ |
    ⟨emits, hq, queue⟩
  · obtain rfl := Option.some.inj (h.coherent.session.symm.trans session)
    have followed := L.follow_emits emits session planned
    obtain ⟨i, hi⟩ := coherent
    rw [followed, e] at *
    refine ⟨s.cursor + 1, h.emit (hi.of_session_eq rfl) rfl ?_⟩
    rw [Queue.pushAll_eq_ok pushed, Queue.motion_append, Queue.motion_number]
  · obtain ⟨i, hi⟩ := coherent
    rw [L.follow_idle emits]
    exact ⟨s.cursor, h.congr (hi.of_session_eq (hq.session.trans h.coherent.session)) hq.inFlight
      (congrArg Queue.motion hq.entries)⟩

theorem fault (h : L.Kept c s) :
    ∃ i, (L.follow c .fault).Kept c.fault { s with cursor := i } := by
  obtain ⟨i, start_le, le, queue, -, e⟩ := h.coherent.fault_eq
  have followed : L.follow c .fault = L.rewind i := by rw [Ledger.follow, e]; rfl
  have coherent : c.fault.Coherent { s with cursor := i } := by
    rw [e]
    exact .of_rest rfl start_le (le.trans h.coherent.cursor_le) rfl rfl nofun
  rw [followed]
  exact ⟨i, h.rewind coherent le (by rw [e]) (by rw [e]; rfl) queue⟩

/-- A quiet move changes nothing that is written down. -/
theorem quiet (h : L.Kept c s) {m : Move} (hm : m.isQuiet) : L.Kept (c.after m) s := by
  have hq := c.after_quiet hm
  obtain ⟨i, hi⟩ := h.coherent.move m
  exact h.congr (hi.of_session_eq (hq.session.trans h.coherent.session)) hq.inFlight
    (congrArg Queue.motion hq.entries)

/-- A move keeps the ledger that follows it. -/
theorem move (h : L.Kept c s) (m : Move) :
    ∃ i, (L.follow c m).Kept (c.after m) { s with cursor := i } := by
  rcases m.kinds with rfl | ⟨seq, rfl⟩ | rfl | hm
  · exact h.step
  · exact ⟨s.cursor, h.retires (.complete c.queue seq)⟩
  · exact h.fault
  · rw [L.follow_quiet c hm]
    exact ⟨s.cursor, h.quiet hm⟩

/-- A course keeps the ledger that follows it. -/
theorem run (h : L.Kept c s) (ms : List Move) :
    ∃ i, (L.followAll c ms).Kept (c.run ms) { s with cursor := i } := by
  induction ms generalizing L c s with
  | nil => exact ⟨s.cursor, h⟩
  | cons m ms ih =>
    obtain ⟨i, hi⟩ := h.move m
    obtain ⟨j, hj⟩ := ih hi
    exact ⟨j, hj⟩

end Ledger.Kept

end Winding

import Winding.Proofs.Execution.Wire

/-!
# The progress of a session

How far a session has come is told by the first line that has not run to its end and by the wire of
the lines before it. Manual motion may be queued between the lines at any time (`Traffic`). Right
after settling both are exact: no line before it is queued, and it is queued itself unless nothing
is (`Course.Coherent.settle_pending`). Neither ever goes back (`Executor.install_progress`).
-/

namespace Winding

variable {R : Type}

/-- The first line of which something is queued, or this line when nothing is. -/
structure Queue.Pending (q : Queue R) (cursor line : Nat) : Prop where
  place : (∃ e ∈ q.entries, e.line = some line) ∨ (∀ e ∈ q.entries, e.line = none) ∧ line = cursor
  least : ∀ e ∈ q.entries, ∀ i ∈ e.line, line ≤ i

theorem Queue.pending_of_head {q : Queue R} {cursor : Nat}
    (sorted : ((motion q.entries).map Prod.fst).Pairwise (· ≤ ·)) :
    q.Pending cursor (((motion q.entries).head?.map Prod.fst).getD cursor) := by
  have lines := filterMap_line q.entries
  rcases queued : motion q.entries with _ | ⟨p, rest⟩
  · have unclaimed := motion_eq_nil_iff.mp queued
    refine ⟨.inr ⟨unclaimed, rfl⟩, fun e he i hi => ?_⟩
    rw [unclaimed e he] at hi
    cases hi
  · rw [queued, List.map_cons] at lines sorted
    have first : p.1 ∈ q.entries.filterMap QueueEntry.line := lines ▸ List.mem_cons_self
    refine ⟨.inl (List.mem_filterMap.mp first), fun e he i hi => ?_⟩
    have line : i ∈ q.entries.filterMap QueueEntry.line := List.mem_filterMap.mpr ⟨e, he, hi⟩
    rw [lines] at line
    rcases List.mem_cons.mp line with rfl | later
    · exact Nat.le_refl _
    · exact (List.pairwise_cons.mp sorted).1 i later

variable [Scalar R]

namespace Course.Coherent

variable {c : Course R} {s : Session R}

/-- Right after settling, the first line that has not run is the first that is queued, or the
cursor. -/
theorem settle_committed (h : c.Coherent s) :
    (c.after .settle).committed =
      ((Queue.motion c.queue.entries).head?.map Prod.fst).getD s.cursor := by
  have settled := h.settle
  rcases queued : Queue.motion c.queue.entries with _ | ⟨p, rest⟩
  · rcases settled.committed_mem with flying | ⟨-, cursor⟩
    · -- Nothing is queued, so nothing is left in flight.
      have none : (c.after .settle).executor.inFlight = [] := by
        simp [after, Executor.settle, Queue.oldestLine?_eq, queued]
      rw [none] at flying
      cases flying
    · exact cursor
  · have oldest : c.queue.oldestLine? = some p.1 := by rw [Queue.oldestLine?_eq, queued]; rfl
    obtain ⟨l, hl, same⟩ := List.mem_map.mp (settled.queued p (queued ▸ List.mem_cons_self))
    rw [committed_eq settled.session]
    rcases flying : (c.after .settle).executor.inFlight with _ | ⟨k, ks⟩
    · rw [flying] at hl
      cases hl
    · have reached : p.1 ≤ k.index := by
        have stop := List.head?_dropWhile_not (fun l : InFlight R => !decide (p.1 ≤ l.index))
          c.executor.inFlight
        have kept : c.executor.inFlight.dropWhile (fun l => !decide (p.1 ≤ l.index)) = k :: ks := by
          simpa [after, Executor.settle, oldest] using flying
        simpa [kept] using stop
      have first := settled.committed_le hl
      rw [committed_eq settled.session, flying, same] at first
      exact Nat.le_antisymm first reached

/-- Right after settling, the first line that has not run is the one that is pending. -/
theorem settle_pending (h : c.Coherent s) :
    c.queue.Pending s.cursor (c.after .settle).committed := by
  rw [h.settle_committed]
  exact Queue.pending_of_head h.queue_sorted

end Course.Coherent

/-! ## Manual motion beside the recipe -/

/-- A move of a course, or manual motion that is offered to its queue. -/
inductive Traffic (R : Type) where
  | move (m : Move)
  | manual (p : Primitive R)

namespace Course

/-- The course after some traffic. Manual motion for which there is no room is refused. -/
def meet (c : Course R) : Traffic R → Course R
  | .move m => c.after m
  | .manual p => { c with queue := (c.queue.push none p).toOption.getD c.queue }

/-- The course after all of some traffic. -/
def meetAll (c : Course R) (ts : List (Traffic R)) : Course R := ts.foldl meet c

theorem motion_manual (c : Course R) (p : Primitive R) :
    Queue.motion (c.meet (.manual p)).queue.entries = Queue.motion c.queue.entries := by
  simp only [meet]
  rcases pushed : c.queue.push none p with e | q
  · rfl
  · rw [Except.toOption, Option.getD_some, Queue.push_eq_ok pushed, Queue.motion_append]
    exact List.append_nil _

end Course

namespace Ledger

/-- What is written down for some traffic. -/
def note (L : Ledger R) (c : Course R) : Traffic R → Ledger R
  | .move m => L.follow c m
  | .manual _ => L

/-- What is written down for all of some traffic. -/
def noteAll (L : Ledger R) (c : Course R) : List (Traffic R) → Ledger R
  | [] => L
  | t :: ts => (L.note c t).noteAll (c.meet t) ts

variable [ExactScalar R] {L : Ledger R} {c : Course R} {s : Session R}

namespace Measured

omit [ExactScalar R] in
theorem manual (h : L.Measured c s) (p : Primitive R) : L.Measured (c.meet (.manual p)) s := by
  have motion := c.motion_manual p
  exact ⟨h.kept.congr (h.kept.coherent.congr h.kept.coherent.session rfl motion
    h.kept.coherent.done) List.suffix_rfl motion, h.taut, h.wire⟩

theorem meet (h : L.Measured c s) (t : Traffic R) :
    ∃ i, (L.note c t).Measured (c.meet t) { s with cursor := i } := by
  cases t with
  | move m => exact h.move m
  | manual p => exact ⟨s.cursor, h.manual p⟩

omit [ExactScalar R] in
/-- What has run does not go back, and is not written down anew. -/
theorem committed_meet (h : L.Measured c s) (t : Traffic R) :
    c.committed ≤ (c.meet t).committed ∧
      ∀ k ≤ c.committed, (L.note c t).wire s.start k = L.wire s.start k := by
  cases t with
  | move m => exact ⟨h.kept.coherent.committed_le_after m, fun k hk => h.wire_follow m hk⟩
  | manual p => exact ⟨Nat.le_refl _, fun _ _ => rfl⟩

theorem meetAll (h : L.Measured c s) (ts : List (Traffic R)) :
    ∃ i, (L.noteAll c ts).Measured (c.meetAll ts) { s with cursor := i } ∧
      c.committed ≤ (c.meetAll ts).committed ∧
      ∀ k ≤ c.committed, (L.noteAll c ts).wire s.start k = L.wire s.start k := by
  induction ts generalizing L c s with
  | nil => exact ⟨s.cursor, h, Nat.le_refl _, fun _ _ => rfl⟩
  | cons t ts ih =>
    obtain ⟨i, hi⟩ := h.meet t
    obtain ⟨later, kept⟩ := h.committed_meet t
    obtain ⟨j, hj, le, same⟩ := ih hi
    exact ⟨j, hj, later.trans le, fun k hk => (same k (hk.trans later)).trans (kept k hk)⟩

/-- No traffic takes back wire that has run. -/
theorem committedWire_mono (h : L.Measured c s) (ts : List (Traffic R)) :
    Scalar.lt (c.meetAll ts).executor.committedWire c.executor.committedWire = false := by
  obtain ⟨i, after, le, same⟩ := h.meetAll ts
  have before := h.kept.coherent.committed_bounds
  have bounds := after.kept.coherent.committed_bounds
  rw [h.committedWire_eq, after.committedWire_eq, ← same _ (Nat.le_refl _)]
  exact after.wire_mono before.1 le bounds.2

/-- No more wire has run than was planned. -/
theorem committedWire_le (h : L.Measured c s) :
    Scalar.lt c.executor.wire c.executor.committedWire = false := by
  have bounds := h.kept.coherent.committed_bounds
  have all : L.wire s.start s.cursor = c.executor.wire := by
    have whole : L.standing.filter (fun e => e.line < s.cursor) = L.standing := by
      refine List.filter_eq_self.mpr fun e he => ?_
      exact decide_eq_true (h.kept.mem_lines.mp (List.mem_map_of_mem he)).2
    rw [h.kept.wire_eq h.kept.coherent.start_le (Nat.le_refl _), whole, h.wire]
  rw [h.committedWire_eq, ← all]
  exact h.wire_mono bounds.1 bounds.2 (Nat.le_refl _)

end Measured

end Ledger

/-! ## Progress -/

/-- How far a session has come that began at a line and was just settled: its emissions that stand
are those of the lines up to the cursor, the first line that has not run is the one that is pending,
and the wire that has run is that of the lines before it. -/
structure Ledger.Reaches (L : Ledger R) (c : Course R) (start cursor line : Nat) : Prop where
  next : c.executor.line? = some cursor
  lines : L.standing.map Emission.line = List.range' start (cursor - start)
  committed : c.executor.committedLine? = some line
  pending : c.queue.Pending cursor line
  wire : c.executor.committedWire =
    Scalar.sum ((L.standing.filter fun e => e.line < line).map Emission.wire)

omit [Scalar R] in
theorem Course.committedLine?_eq {c : Course R} {s : Session R}
    (session : c.executor.session = some s) : c.executor.committedLine? = some c.committed := by
  rw [committed, Executor.committedLine?, session]
  rfl

theorem Ledger.Measured.reaches [ExactScalar R] {L : Ledger R} {c : Course R} {s : Session R}
    (h : L.Measured c s) :
    L.Reaches (c.after .settle) s.start s.cursor (c.after .settle).committed := by
  have settled : L.Measured (c.after .settle) s :=
    ⟨h.kept.congr h.kept.coherent.settle (c.after_quiet rfl).inFlight rfl, h.taut, h.wire⟩
  have coherent := settled.kept.coherent
  obtain ⟨start_le, le⟩ := coherent.committed_bounds
  refine ⟨?_, h.kept.lines, Course.committedLine?_eq coherent.session,
    h.kept.coherent.settle_pending, ?_⟩
  · rw [Executor.line?, coherent.session]
    rfl
  · rw [settled.committedWire_eq, settled.kept.wire_eq start_le le]

/-- Of a recipe that was installed, while the queue held no line of a recipe: whatever traffic there
is, right after settling the progress is exact. It never goes back, and no more wire has run than
was planned. -/
theorem Executor.install_progress [ExactScalar R] {x x₀ : Executor R} {files : FileStore}
    {path : Option String} {recipe : Recipe R} {start : Nat} {q : Queue R}
    (installed : x.install files path recipe start = (.ok (), x₀))
    (unclaimed : ∀ e ∈ q.entries, e.line = none) (ts : List (Traffic R)) :
    let c := Course.meetAll ⟨x₀, q⟩ ts
    let L := Ledger.empty.noteAll ⟨x₀, q⟩ ts
    (∃ cursor line, L.Reaches (c.after .settle) start cursor line) ∧
      (∀ us, ∃ line line', c.executor.committedLine? = some line ∧
        (c.meetAll us).executor.committedLine? = some line' ∧ line ≤ line' ∧
        Scalar.lt (c.meetAll us).executor.committedWire c.executor.committedWire = false) ∧
      Scalar.lt c.executor.wire c.executor.committedWire = false := by
  intro c L
  obtain ⟨library, s, start_eq, cursor_eq, -, le, rfl⟩ := install_eq_ok installed
  have motion : Queue.motion q.entries = [] := Queue.motion_eq_nil_iff.mpr unclaimed
  have begun : Ledger.empty.Measured ⟨{ x with library := library }.begin s, q⟩ s :=
    ⟨.empty (.of_begin _ (start_eq.trans cursor_eq.symm) (cursor_eq ▸ le) motion)
      (start_eq.trans cursor_eq.symm) rfl motion, nofun, rfl⟩
  obtain ⟨i, measured, -⟩ := begun.meetAll ts
  have measured : L.Measured c { s with cursor := i } := measured
  subst start_eq
  refine ⟨⟨i, _, measured.reaches⟩, fun us => ?_, measured.committedWire_le⟩
  obtain ⟨j, later, le, -⟩ := measured.meetAll us
  exact ⟨_, _, Course.committedLine?_eq measured.kept.coherent.session,
    Course.committedLine?_eq later.kept.coherent.session, le, measured.committedWire_mono us⟩

namespace Bench

/-- All lines are queued, with manual motion behind the first, and the first has run. -/
def mixedTraffic : List (Traffic Whole) :=
  [.move (.setReady true), .move .step, .manual (.dwell 5), .move .step, .move .step,
    .move (.complete 0)]

/-- The manual motion is in front, and the pause of the last line is the last entry: that line is
the first that has not run. -/
theorem mixed_progress :
    executor.install (.empty []) none recipe 0 = (.ok (), loaded) ∧
      (∀ e ∈ (Queue.empty 8 : Queue Whole).entries, e.line = none) ∧
      let c := Course.meetAll ⟨loaded, .empty 8⟩ mixedTraffic
      let L := Ledger.empty.noteAll ⟨loaded, .empty 8⟩ mixedTraffic
      L.Reaches (c.after .settle) 0 3 2 ∧
        (∀ us, ∃ line line', c.executor.committedLine? = some line ∧
          (c.meetAll us).executor.committedLine? = some line' ∧ line ≤ line' ∧
          Scalar.lt (c.meetAll us).executor.committedWire c.executor.committedWire = false) ∧
        Scalar.lt c.executor.wire c.executor.committedWire = false := by
  have unclaimed : ∀ e ∈ (Queue.empty 8 : Queue Whole).entries, e.line = none :=
    List.forall_mem_nil _
  obtain ⟨⟨cursor, line, reaches⟩, rest⟩ :=
    Executor.install_progress install_eq unclaimed mixedTraffic
  have now : (Course.meetAll ⟨loaded, .empty 8⟩ mixedTraffic).executor.line? = some 3 := by
    decide +kernel
  have first :
      ((Course.meetAll ⟨loaded, .empty 8⟩ mixedTraffic).after .settle).executor.committedLine? =
        some 2 := by decide +kernel
  obtain rfl := Option.some.inj (now.symm.trans reaches.next)
  obtain rfl := Option.some.inj (first.symm.trans reaches.committed)
  exact ⟨install_eq, unclaimed, reaches, rest⟩

end Bench

end Winding

import Winding.Proofs.Execution.Ledger
import Winding.Proofs.Planning.Taut

/-!
# The wire of a session

With exact numbers, the wire that an executor has counted is that of the emissions that stand
(`Ledger.Measured`), and the wire that has run is that of the lines before the first one that has not
(`Ledger.Measured.committedWire_eq`). That line never goes back, and what stands before it stays as
it is (`Ledger.Measured.run`).
-/

namespace Winding

variable {R : Type} [Scalar R]

/-- The first line that has not run to its end. -/
def Course.committed (c : Course R) : Nat := c.executor.committedLine?.getD 0

namespace Ledger

omit [Scalar R] in
/-- The last emission of a line that no fault has taken back. -/
def standing? (L : Ledger R) (i : Nat) : Option (Emission R) :=
  L.standing.reverse.find? fun e => e.line = i

/-- The wire of the lines from `start` to `stop`, by their emissions that stand. -/
def wire (L : Ledger R) (start stop : Nat) : R :=
  Scalar.sum ((List.range' start (stop - start)).map fun i =>
    ((L.standing? i).map Emission.wire).getD Scalar.zero)

/-- The ledger agrees with the course, and its emissions account for the wire. -/
structure Measured (L : Ledger R) (c : Course R) (s : Session R) : Prop where
  kept : L.Kept c s
  taut : ∀ e ∈ L.standing, e.plan.IsTaut
  wire : c.executor.wire = Scalar.sum (L.standing.map Emission.wire)

end Ledger

omit [Scalar R] in
theorem Course.committed_eq {c : Course R} {s : Session R} (h : c.executor.session = some s) :
    c.committed = (c.executor.inFlight.head?.map InFlight.index).getD s.cursor := by
  simp [committed, Executor.committedLine?, h]

/-! ## Where the first line is that has not run -/

namespace Course.Coherent

variable {c : Course R} {s : Session R}

omit [Scalar R] in
theorem committed_bounds (h : c.Coherent s) : s.start ≤ c.committed ∧ c.committed ≤ s.cursor := by
  rw [committed_eq h.session]
  rcases hf : c.executor.inFlight with _ | ⟨l, ls⟩
  · exact ⟨h.start_le, Nat.le_refl _⟩
  · have bounds := h.bounds l (by simp [hf])
    exact ⟨bounds.1, bounds.2.le⟩

omit [Scalar R] in
/-- No line in flight is before it. -/
theorem committed_le (h : c.Coherent s) {l : InFlight R} (hl : l ∈ c.executor.inFlight) :
    c.committed ≤ l.index := by
  rw [committed_eq h.session]
  have sorted := h.sorted
  rcases hf : c.executor.inFlight with _ | ⟨k, ls⟩
  · rw [hf] at hl
    cases hl
  · rw [hf, List.map_cons, List.pairwise_cons] at sorted
    rw [hf] at hl
    rcases List.mem_cons.mp hl with rfl | hl
    · exact Nat.le_refl _
    · exact (sorted.1 l.index (List.mem_map_of_mem hl)).le

omit [Scalar R] in
/-- It is a line in flight, or the cursor when none is. -/
theorem committed_mem (h : c.Coherent s) :
    c.committed ∈ c.executor.inFlight.map InFlight.index ∨
      c.executor.inFlight = [] ∧ c.committed = s.cursor := by
  rw [committed_eq h.session]
  rcases hf : c.executor.inFlight with _ | ⟨l, ls⟩
  · exact .inr ⟨rfl, rfl⟩
  · exact .inl (by simp)

omit [Scalar R] in
/-- It does not go back when all lines in flight were so before, or are new. -/
theorem committed_le_of_inFlight (h : c.Coherent s) {c' : Course R} {s' : Session R}
    (session : c'.executor.session = some s') (le : s.cursor ≤ s'.cursor)
    (old : ∀ l ∈ c'.executor.inFlight, l ∈ c.executor.inFlight ∨ s.cursor ≤ l.index) :
    c.committed ≤ c'.committed := by
  have cursor := h.committed_bounds.2
  rw [committed_eq session]
  rcases hf : c'.executor.inFlight with _ | ⟨l, ls⟩
  · exact cursor.trans le
  · rcases old l (by simp [hf]) with hl | hl
    · exact h.committed_le hl
    · exact cursor.trans hl

omit [Scalar R] in
theorem committed_le_of_quiet (h : c.Coherent s) {c' : Course R} (quiet : c.Quiet c') :
    c.committed ≤ c'.committed :=
  h.committed_le_of_inFlight (quiet.session.trans h.session) (Nat.le_refl _)
    fun _ hl => .inl (quiet.inFlight.subset hl)

/-- No move takes it back. -/
theorem committed_le_after (h : c.Coherent s) (m : Move) : c.committed ≤ (c.after m).committed := by
  rcases m.kinds with rfl | ⟨seq, rfl⟩ | rfl | quiet
  · rcases c.step_cases with ⟨s', plan, q, session, -, -, -, -, e⟩ | ⟨-, quiet, -⟩
    · obtain rfl := Option.some.inj (h.session.symm.trans session)
      rw [e]
      refine h.committed_le_of_inFlight rfl (Nat.le_succ _) fun l hl => ?_
      simp only [Executor.advance] at hl
      split at hl
      · exact .inl hl
      · rcases List.mem_append.mp hl with hl | hl
        · exact .inl hl
        · exact .inr (by rw [List.mem_singleton.mp hl])
    · exact h.committed_le_of_quiet quiet
  · exact Nat.le_refl _
  · obtain ⟨i, -, -, -, place, e⟩ := h.fault_eq
    have line : (c.after .fault).committed = i := by rw [after, e]; rfl
    rw [line]
    rcases place with ⟨l, hl, rfl⟩ | ⟨-, rfl⟩
    · exact h.committed_le (Executor.mem_inFlight_of_head? hl)
    · exact h.committed_bounds.2
  · exact h.committed_le_of_quiet (c.after_quiet quiet)

end Course.Coherent

/-! ## Sums of wire -/

/-- From a line on, only lines with motion take wire. -/
theorem Emission.sum_wire_from [ExactScalar R] {es : List (Emission R)} (i : Nat)
    (taut : ∀ e ∈ es, e.plan.IsTaut) :
    Scalar.sum ((es.filter fun e => i ≤ e.line).map wire) =
      Scalar.sum (((es.filterMap inFlight?).filter fun p => i ≤ p.1).map Prod.snd) := by
  induction es with
  | nil => rfl
  | cons e es ih =>
    rw [List.forall_mem_cons] at taut
    obtain ⟨first, taut⟩ := taut
    have ih := ih taut
    by_cases empty : e.primitives.isEmpty
    · have none : e.inFlight? = none := if_pos empty
      have zero : e.wire = Scalar.zero := first.empty (List.isEmpty_iff.mp empty)
      rw [List.filterMap_cons_none none, ← ih]
      by_cases le : i ≤ e.line
      · rw [List.filter_cons_of_pos (by simpa using le), List.map_cons, ExactScalar.sum_cons, zero,
          ExactScalar.zero_add]
      · rw [List.filter_cons_of_neg (by simpa using le)]
    · have some : e.inFlight? = some (e.line, e.wire) := if_neg empty
      rw [List.filterMap_cons_some some]
      by_cases le : i ≤ e.line
      · rw [List.filter_cons_of_pos (by simpa using le), List.filter_cons_of_pos (by simpa using le),
          List.map_cons, List.map_cons, ExactScalar.sum_cons, ExactScalar.sum_cons, ih]
      · rw [List.filter_cons_of_neg (by simpa using le), List.filter_cons_of_neg (by simpa using le),
          ih]

omit [Scalar R] in
/-- The lines with motion, in order, are some of the lines. -/
theorem Emission.inFlight_sublist (es : List (Emission R)) :
    ((es.filterMap inFlight?).map Prod.fst).Sublist (es.map line) := by
  induction es with
  | nil => exact List.Sublist.slnil
  | cons e es ih =>
    by_cases empty : e.primitives.isEmpty
    · have none : e.inFlight? = none := if_pos empty
      rw [List.filterMap_cons_none none]
      exact ih.cons _
    · have some : e.inFlight? = some (e.line, e.wire) := if_neg empty
      rw [List.filterMap_cons_some some]
      exact ih.cons_cons _

namespace Ledger.Kept

variable {L : Ledger R} {c : Course R} {s : Session R}

section

omit [Scalar R]

/-- A line has at most one emission that stands. -/
theorem standing?_eq (h : L.Kept c s) {e : Emission R} (he : e ∈ L.standing) :
    L.standing? e.line = some e := by
  obtain ⟨e', found⟩ : ∃ e', L.standing? e.line = some e' :=
    Option.isSome_iff_exists.mp (List.find?_isSome.mpr ⟨e, by simpa using he, by simp⟩)
  have line : e'.line = e.line := by simpa using List.find?_some found
  have last := h.last e' (by simpa using List.mem_of_find?_eq_some found)
  rw [line, h.last e he] at last
  rw [found, last]

theorem mem_lines (h : L.Kept c s) {i : Nat} :
    i ∈ L.standing.map Emission.line ↔ s.start ≤ i ∧ i < s.cursor := by
  have start_le := h.coherent.start_le
  rw [h.lines, List.mem_range'_1]
  omega

/-- From a line in flight on, what stands with motion is what is in flight. -/
theorem inFlight_from (h : L.Kept c s) {i : Nat}
    (place : i ∈ c.executor.inFlight.map InFlight.index ∨ i = s.cursor) :
    (L.standing.filterMap Emission.inFlight?).filter (fun p => i ≤ p.1) =
      (c.executor.inFlightFrom i).map fun l => (l.index, l.wire) := by
  have sublist := Emission.inFlight_sublist L.standing
  obtain ⟨earlier, e⟩ := h.inFlight
  have early (p) (hp : p ∈ earlier) : p.1 < i := by
    rcases place with hi | rfl
    · have sorted : ((L.standing.filterMap Emission.inFlight?).map Prod.fst).Pairwise (· < ·) := by
        refine List.Pairwise.sublist sublist ?_
        rw [h.lines]
        exact List.pairwise_lt_range'
      rw [← e, List.map_append, List.pairwise_append] at sorted
      exact sorted.2.2 p.1 (List.mem_map_of_mem hp) i (by simpa using hi)
    · have hp : p ∈ L.standing.filterMap Emission.inFlight? := e ▸ List.mem_append_left _ hp
      exact (h.mem_lines.mp (sublist.subset (List.mem_map_of_mem hp))).2
  have none : earlier.filter (fun p => i ≤ p.1) = [] :=
    List.filter_eq_nil_iff.mpr fun p hp => by simpa using early p hp
  rw [← e, List.filter_append, none, List.nil_append, List.filter_map]
  rfl

end

/-- The wire of the first lines is that of the emissions that stand before a line. -/
theorem wire_eq (h : L.Kept c s) {i : Nat} (start_le : s.start ≤ i) (le : i ≤ s.cursor) :
    L.wire s.start i =
      Scalar.sum ((L.standing.filter fun e => e.line < i).map Emission.wire) := by
  have lines : List.range' s.start (i - s.start) =
      (L.standing.filter fun e => e.line < i).map Emission.line := by
    have filtered := congrArg (List.filter fun k => decide (k < i)) h.lines
    rw [List.filter_map, filter_lt_range' start_le (by omega)] at filtered
    exact filtered.symm
  rw [wire, lines, List.map_map]
  refine congrArg Scalar.sum (List.map_congr_left fun e he => ?_)
  rw [Function.comp, h.standing?_eq (List.mem_filter.mp he).1]
  rfl

end Ledger.Kept

/-! ## Keeping count -/

theorem Session.planAt?_taut [ExactScalar R] {context : PlanContext R} {s : Session R}
    {pose : Pose R} {i : Nat} {plan : LinePlan R} (planned : s.planAt? context pose i = some plan) :
    plan.IsTaut := by
  obtain ⟨line, -, planned⟩ := Option.bind_eq_some_iff.mp planned
  rcases hp : planLine context (some s.table) pose line with e | plan'
  · rw [hp] at planned
    cases planned
  · rw [hp] at planned
    cases planned
    exact planLine_taut hp

namespace Ledger.Measured

variable [ExactScalar R] {L : Ledger R} {c : Course R} {s : Session R}

/-- Without the lines in flight from a line on, the wire is that of the lines before it. -/
theorem wire_sub (h : L.Measured c s) {i : Nat} (start_le : s.start ≤ i) (le : i ≤ s.cursor)
    (place : i ∈ c.executor.inFlight.map InFlight.index ∨ i = s.cursor) :
    c.executor.wire - Scalar.sum ((c.executor.inFlightFrom i).map InFlight.wire) =
      L.wire s.start i := by
  have later : Scalar.sum ((L.standing.filter fun e => !decide (e.line < i)).map Emission.wire) =
      Scalar.sum ((c.executor.inFlightFrom i).map InFlight.wire) := by
    simp only [← decide_not, not_lt]
    rw [Emission.sum_wire_from i h.taut, h.kept.inFlight_from place, List.map_map]
    rfl
  rw [h.wire, h.kept.wire_eq start_le le,
    ExactScalar.sum_filter Emission.wire (fun e => decide (e.line < i)), later,
    ExactScalar.add_sub_cancel]

/-- The wire that has run is that of the lines before the first one that has not. -/
theorem committedWire_eq (h : L.Measured c s) :
    c.executor.committedWire = L.wire s.start c.committed := by
  have coherent := h.kept.coherent
  obtain ⟨start_le, le⟩ := coherent.committed_bounds
  have all : c.executor.inFlightFrom c.committed = c.executor.inFlight :=
    List.filter_eq_self.mpr fun l hl => by simpa using coherent.committed_le hl
  rw [← h.wire_sub start_le le (coherent.committed_mem.imp_right And.right), all]
  rfl

/-- More lines take no less wire. -/
theorem wire_mono (h : L.Measured c s) {i j : Nat} (start_le : s.start ≤ i) (le : i ≤ j)
    (cursor : j ≤ s.cursor) : Scalar.lt (L.wire s.start j) (L.wire s.start i) = false := by
  have split : List.range' s.start (j - s.start) =
      List.range' s.start (i - s.start) ++ List.range' i (j - i) := by
    have part := List.range'_append_1 (s := s.start) (m := i - s.start) (n := j - i)
    rw [show s.start + (i - s.start) = i by omega,
      show i - s.start + (j - i) = j - s.start by omega] at part
    exact part.symm
  rw [Ledger.wire, split, List.map_append, ExactScalar.sum_append]
  refine ExactScalar.not_lt_add (ExactScalar.sum_nonneg fun x hx => ?_)
  obtain ⟨k, hk, rfl⟩ := List.mem_map.mp hx
  have bounds := List.mem_range'_1.mp hk
  obtain ⟨e, he, rfl⟩ := List.mem_map.mp (h.kept.mem_lines (i := k).mpr (by omega))
  rw [h.kept.standing?_eq he]
  exact (h.taut e he).nonneg

/-! ### Moves -/

theorem step (h : L.Measured c s) :
    ∃ i, (L.follow c .step).Measured (c.after .step) { s with cursor := i } := by
  obtain ⟨i, kept⟩ := h.kept.step
  rcases c.step_cases with ⟨s', plan, q, session, -, planned, -, emits, e⟩ | ⟨emits, quiet, -⟩
  · obtain rfl := Option.some.inj (h.kept.coherent.session.symm.trans session)
    rw [L.follow_emits emits session planned] at kept ⊢
    refine ⟨i, kept, fun e he => ?_, ?_⟩
    · rcases List.mem_append.mp he with he | he
      · exact h.taut e he
      · rw [List.mem_singleton.mp he]
        exact Session.planAt?_taut planned
    · rw [e, emit, List.map_append, ExactScalar.sum_append, ← h.wire]
      exact congrArg (c.executor.wire + ·) (ExactScalar.zero_add plan.wire).symm
  · rw [L.follow_idle emits] at kept ⊢
    exact ⟨i, kept, h.taut, quiet.wire.trans h.wire⟩

theorem fault (h : L.Measured c s) :
    ∃ i, (L.follow c .fault).Measured c.fault { s with cursor := i } := by
  obtain ⟨j, kept⟩ := h.kept.fault
  obtain ⟨i, start_le, le, -, place, e⟩ := h.kept.coherent.fault_eq
  have followed : L.follow c .fault = L.rewind i := by rw [follow, e]; rfl
  rw [followed] at kept ⊢
  have first := Executor.inFlight_of_place place
  have wire : c.fault.executor.wire = L.wire s.start i := by
    rw [← h.wire_sub start_le le first, ← ExactScalar.foldl_sub, ← List.map_reverse,
      List.foldl_map, e]
  refine ⟨j, kept, fun e he => h.taut e (List.mem_filter.mp he).1, ?_⟩
  rw [wire, h.kept.wire_eq start_le le]
  rfl

/-- A move keeps count. -/
theorem move (h : L.Measured c s) (m : Move) :
    ∃ i, (L.follow c m).Measured (c.after m) { s with cursor := i } := by
  rcases m.kinds with rfl | ⟨seq, rfl⟩ | rfl | quiet
  · exact h.step
  · exact ⟨s.cursor, h.kept.retires (.complete c.queue seq), h.taut, h.wire⟩
  · exact h.fault
  · obtain ⟨i, kept⟩ := h.kept.move m
    rw [L.follow_quiet c quiet] at kept ⊢
    exact ⟨i, kept, h.taut, (c.after_quiet quiet).wire.trans h.wire⟩

omit [ExactScalar R] in
/-- What has run is not queued again. -/
theorem wire_follow (h : L.Measured c s) (m : Move) {i : Nat} (le : i ≤ c.committed) :
    (L.follow c m).wire s.start i = L.wire s.start i := by
  obtain ⟨start_le, cursor⟩ := h.kept.coherent.committed_bounds
  refine congrArg Scalar.sum (List.map_congr_left fun k hk => ?_)
  have before : k < c.committed := by
    have := List.mem_range'_1.mp hk
    omega
  have same : (L.follow c m).standing? k = L.standing? k := by
    rcases m.kinds with rfl | ⟨seq, rfl⟩ | rfl | quiet
    · rcases c.step_cases with ⟨s', plan, q, session, -, planned, -, emits, -⟩ | ⟨emits, -⟩
      · obtain rfl := Option.some.inj (h.kept.coherent.session.symm.trans session)
        rw [L.follow_emits emits session planned, standing?, emit, List.reverse_append]
        exact List.find?_cons_of_neg (by simpa using (before.trans_le cursor).ne')
      · rw [L.follow_idle emits]
    · rfl
    · obtain ⟨i, -, -, -, -, e⟩ := h.kept.coherent.fault_eq
      have le := h.kept.coherent.committed_le_after .fault
      have line : (c.after .fault).committed = i := by rw [Course.after, e]; rfl
      have followed : L.follow c .fault = L.rewind i := by rw [follow, e]; rfl
      rw [followed, standing?, rewind, ← List.filter_reverse, List.find?_filter]
      refine congrArg (List.find? · _) (funext fun e' => ?_)
      rw [Bool.eq_iff_iff]
      simp only [decide_eq_true_eq, and_iff_right_iff_imp]
      omega
    · rw [L.follow_quiet c quiet]
  rw [same]

/-- A course keeps count. What had run before has run, with the same wire. -/
theorem run (h : L.Measured c s) (ms : List Move) :
    ∃ i, (L.followAll c ms).Measured (c.run ms) { s with cursor := i } ∧
      c.committed ≤ (c.run ms).committed ∧
      ∀ k ≤ c.committed, (L.followAll c ms).wire s.start k = L.wire s.start k := by
  induction ms generalizing L c s with
  | nil => exact ⟨s.cursor, h, Nat.le_refl _, fun _ _ => rfl⟩
  | cons m ms ih =>
    obtain ⟨i, hi⟩ := h.move m
    have later := h.kept.coherent.committed_le_after m
    obtain ⟨j, hj, le, same⟩ := ih hi
    exact ⟨j, hj, later.trans le, fun k hk => (same k (hk.trans later)).trans (h.wire_follow m hk)⟩

end Ledger.Measured

end Winding

import Mathlib.Data.List.Nodup
import Winding.Proofs.Execution.Wire

/-!
# Where a fault goes back to

A fault should go back to the first line that has motion to run, and stay at the cursor when all motion
has run (`Ledger.Rewinds`). It does, unless all motion has run and lines are still held to be in
flight: then it goes back to the oldest of these, whose motion is queued again
(`Executor.fault_rewinds`). No line is held so when the lines in flight were settled after the last
completion.
-/

namespace Winding

variable {R : Type}

namespace Ledger

/-- How many primitives of a line were completed since it was queued last. -/
def completed (L : Ledger R) (i : Nat) : Nat := (L.retired.filter fun p => p.1 = i).length

/-- A line was queued, and not all of its primitives were completed. -/
def Unfinished (L : Ledger R) (i : Nat) : Prop :=
  ∃ e ∈ L.standing, e.line = i ∧ L.completed i < e.primitives.length

instance (L : Ledger R) (i : Nat) : Decidable (L.Unfinished i) :=
  inferInstanceAs (Decidable (∃ e ∈ L.standing, e.line = i ∧ L.completed i < e.primitives.length))

/-- A fault that finds the cursor at a line goes back to the first unfinished line, and stays when there
is none. No line whose motion has run is queued again. -/
structure Rewinds (L : Ledger R) (cursor line : Nat) : Prop where
  least : ∀ i, L.Unfinished i → line ≤ i
  place : L.Unfinished line ∨ (∀ i, ¬L.Unfinished i) ∧ line = cursor
  spares : ∀ e ∈ L.standing, e.primitives ≠ [] → ¬L.Unfinished e.line → e.line < line

end Ledger

/-- The motion of lines in order is in order. -/
theorem Emission.motion_sorted {es : List (Emission R)}
    (h : (es.map Emission.line).Pairwise (· < ·)) :
    ((es.flatMap motion).map Prod.fst).Pairwise (· ≤ ·) := by
  induction es with
  | nil => exact .nil
  | cons e es ih =>
    rw [List.map_cons, List.pairwise_cons] at h
    rw [List.flatMap_cons, List.map_append, List.pairwise_append]
    refine ⟨?_, ih h.2, fun i hi j hj => ?_⟩
    · simp [motion, Function.comp_def, List.map_const']
    · obtain ⟨p, hp, rfl⟩ := List.mem_map.mp hi
      obtain ⟨q, hq, rfl⟩ := List.mem_map.mp hj
      obtain ⟨e', he', hq⟩ := List.mem_flatMap.mp hq
      rw [line_of_mem_motion hp, line_of_mem_motion hq]
      exact (h.1 e'.line (List.mem_map_of_mem he')).le

/-! ## Unfinished lines -/

namespace Ledger.Kept

variable {L : Ledger R} {c : Course R} {s : Session R} {e : Emission R}

/-- The lines that stand are in order. -/
theorem lines_sorted (h : L.Kept c s) : (L.standing.map Emission.line).Pairwise (· < ·) := by
  rw [h.lines]
  exact List.pairwise_lt_range'

/-- The primitives of a line have completed, or are queued. -/
theorem completed_add (h : L.Kept c s) (he : e ∈ L.standing) :
    L.completed e.line +
        ((Queue.motion c.queue.entries).filter fun p => p.1 = e.line).length =
      e.primitives.length := by
  have once : L.standing.filter (fun e' => e'.line = e.line) = [e] := by
    have one : (L.standing.filter fun e' => e'.line = e.line).length = 1 := by
      have count : (L.standing.map Emission.line).count e.line = 1 :=
        List.count_eq_one_of_mem h.lines_sorted.nodup (List.mem_map_of_mem he)
      rw [← count, List.count, List.countP_map, List.countP_eq_length_filter]
      rfl
    obtain ⟨e', single⟩ := List.length_eq_one_iff.mp one
    have mem : e ∈ L.standing.filter fun e' => e'.line = e.line :=
      List.mem_filter.mpr ⟨he, by simp⟩
    rw [single] at mem ⊢
    rw [List.mem_singleton.mp mem]
  have part := congrArg (List.filter fun p => decide (p.1 = e.line)) h.conserved
  rw [List.filter_append, Emission.filter_flatMap_motion _ fun k => k = e.line, once,
    List.flatMap_singleton] at part
  have lengths := congrArg List.length part
  rw [List.length_append, Emission.motion, List.length_map] at lengths
  exact lengths

/-- The unfinished lines are those that are queued. -/
theorem unfinished_iff (h : L.Kept c s) {i : Nat} :
    L.Unfinished i ↔ ∃ p ∈ Queue.motion c.queue.entries, p.1 = i := by
  constructor
  · rintro ⟨e, he, rfl, lt⟩
    have sum := h.completed_add he
    have pos : 0 < ((Queue.motion c.queue.entries).filter fun p => p.1 = e.line).length := by omega
    obtain ⟨p, hp⟩ := List.exists_mem_of_length_pos pos
    obtain ⟨hp, line⟩ := List.mem_filter.mp hp
    exact ⟨p, hp, by simpa using line⟩
  · rintro ⟨p, hp, rfl⟩
    have standing : p ∈ L.standing.flatMap Emission.motion := by
      rw [← h.conserved]
      exact List.mem_append_right _ hp
    obtain ⟨e, he, hpe⟩ := List.mem_flatMap.mp standing
    have line := Emission.line_of_mem_motion hpe
    have sum := h.completed_add he
    have pos : 0 < ((Queue.motion c.queue.entries).filter fun p => p.1 = e.line).length :=
      List.length_pos_of_mem (List.mem_filter.mpr ⟨hp, by simpa using line⟩)
    exact ⟨e, he, line.symm, by rw [line]; omega⟩

theorem not_unfinished (h : L.Kept c s) (empty : Queue.motion c.queue.entries = []) (i : Nat) :
    ¬L.Unfinished i := by
  rw [h.unfinished_iff, empty]
  rintro ⟨p, hp, -⟩
  cases hp

/-- A line with motion that is not unfinished is before every line that is queued. -/
theorem finished_lt (h : L.Kept c s) (he : e ∈ L.standing) (some : e.primitives ≠ [])
    (finished : ¬L.Unfinished e.line) {p : Nat × Primitive R}
    (hp : p ∈ Queue.motion c.queue.entries) : e.line < p.1 := by
  obtain ⟨a, ha⟩ := List.exists_mem_of_ne_nil _ some
  have motion : (e.line, a) ∈ L.retired ++ Queue.motion c.queue.entries := by
    rw [h.conserved]
    exact List.mem_flatMap.mpr ⟨e, he, List.mem_map_of_mem ha⟩
  have sorted := Emission.motion_sorted h.lines_sorted
  rw [← h.conserved, List.map_append, List.pairwise_append] at sorted
  rcases List.mem_append.mp motion with retired | queued
  · have le := sorted.2.2 e.line (List.mem_map_of_mem retired) p.1 (List.mem_map_of_mem hp)
    have ne : p.1 ≠ e.line := fun same => finished (h.unfinished_iff.mpr ⟨p, hp, same⟩)
    omega
  · exact absurd (h.unfinished_iff.mpr ⟨_, queued, rfl⟩) finished

end Ledger.Kept

/-! ## Faults -/

namespace Course.Coherent

variable [Scalar R] {c : Course R} {s : Session R}

/-- The line that a fault goes back to. -/
theorem fault_line (h : c.Coherent s) :
    c.fault.executor.line? =
      some (((Queue.motion c.queue.entries).head?.map Prod.fst).getD c.committed) := by
  have bound : ((Queue.motion c.queue.entries).head?.map Prod.fst).getD c.committed ≤ s.cursor := by
    rcases hm : Queue.motion c.queue.entries with _ | ⟨p, rest⟩
    · exact h.committed_bounds.2
    · obtain ⟨l, hl, e⟩ := List.mem_map.mp (h.queued p (by simp [hm]))
      have := (h.bounds l hl).2
      simp only [List.head?_cons, Option.map_some, Option.getD_some]
      omega
  rw [committed_eq h.session] at bound ⊢
  simp only [Course.fault, Executor.fault, h.rewindLine?_eq, Executor.rewind, Executor.line?,
    Executor.foldl_takeBack_session, h.session, Option.map_some, Nat.min_eq_left bound]

end Course.Coherent

namespace Ledger.Kept

variable {L : Ledger R} {c : Course R} {s : Session R}

/-- While a line is unfinished, a fault goes back to the first such line. -/
theorem rewinds_of_queued (h : L.Kept c s) {p : Nat × Primitive R} {rest : List (Nat × Primitive R)}
    (queue : Queue.motion c.queue.entries = p :: rest) : L.Rewinds s.cursor p.1 where
  least i unfinished := by
    obtain ⟨q, hq, rfl⟩ := h.unfinished_iff.mp unfinished
    have sorted := h.coherent.queue_sorted
    rw [queue, List.map_cons, List.pairwise_cons] at sorted
    rw [queue] at hq
    rcases List.mem_cons.mp hq with rfl | hq
    · exact Nat.le_refl _
    · exact sorted.1 q.1 (List.mem_map_of_mem hq)
  place := .inl (h.unfinished_iff.mpr ⟨p, by simp [queue], rfl⟩)
  spares e he some finished := h.finished_lt he some finished (by simp [queue])

/-- Once all motion has run, a fault goes where it should exactly when no line is held to be in
flight. -/
theorem rewinds_iff_of_run (h : L.Kept c s) (empty : Queue.motion c.queue.entries = []) :
    L.Rewinds s.cursor c.committed ↔ c.executor.inFlight = [] := by
  have place := h.coherent.committed_mem
  constructor
  · rintro ⟨-, unfinished | ⟨-, cursor⟩, -⟩
    · exact absurd unfinished (h.not_unfinished empty _)
    · rcases place with hm | ⟨none, -⟩
      · obtain ⟨l, hl, e⟩ := List.mem_map.mp hm
        have := (h.coherent.bounds l hl).2
        omega
      · exact none
  · intro none
    have cursor : c.committed = s.cursor := by
      rcases place with hm | ⟨-, cursor⟩
      · rw [none] at hm
        cases hm
      · exact cursor
    refine ⟨fun i unfinished => absurd unfinished (h.not_unfinished empty i),
      .inr ⟨h.not_unfinished empty, cursor⟩, fun e he _ _ => ?_⟩
    rw [cursor]
    exact (h.mem_lines.mp (List.mem_map_of_mem he)).2

/-- A line in flight has motion. -/
theorem exists_of_inFlight (h : L.Kept c s) {l : InFlight R} (hl : l ∈ c.executor.inFlight) :
    ∃ e ∈ L.standing, e.line = l.index ∧ e.primitives ≠ [] := by
  have mem : (l.index, l.wire) ∈ L.standing.filterMap Emission.inFlight? :=
    h.inFlight.subset (List.mem_map_of_mem hl)
  obtain ⟨e, he, some⟩ := List.mem_filterMap.mp mem
  unfold Emission.inFlight? at some
  split at some
  · cases some
  · next ne =>
    exact ⟨e, he, congrArg Prod.fst (Option.some.inj some), fun nil => ne (by simp [nil])⟩

end Ledger.Kept

/-! ## Settling -/

/-- When no line is queued, none is held to be in flight. -/
def Course.Settled (c : Course R) : Prop :=
  Queue.motion c.queue.entries = [] → c.executor.inFlight = []

namespace Course

variable [Scalar R]

theorem settle_settled (c : Course R) : (c.after .settle).Settled := by
  intro empty
  have none : c.queue.oldestLine? = none := by
    rw [Queue.oldestLine?_eq]
    exact congrArg (Option.map Prod.fst) (congrArg List.head? empty)
  simp [after, Executor.settle, none]

/-- Only a completion leaves lines in flight that have run. -/
theorem Settled.after {c : Course R} (h : c.Settled) {m : Move} (run : ∀ seq, m ≠ .complete seq) :
    (c.after m).Settled := by
  have quiet {c' : Course R} (hq : c.Quiet c') : c'.Settled := by
    intro empty
    rw [hq.entries] at empty
    have suffix := hq.inFlight
    rwa [h empty, List.suffix_nil] at suffix
  rcases m.kinds with rfl | ⟨seq, rfl⟩ | rfl | hm
  · rcases c.step_cases with ⟨s, plan, q, -, -, -, pushed, -, e⟩ | ⟨-, hq, -⟩
    · rw [e]
      intro empty
      rw [Queue.pushAll_eq_ok pushed, Queue.motion_append, Queue.motion_number,
        List.append_eq_nil_iff, List.map_eq_nil_iff] at empty
      simp [Executor.advance, empty.2, h empty.1]
    · exact quiet hq
  · exact absurd rfl (run seq)
  · intro
    rfl
  · exact quiet (c.after_quiet hm)

theorem Settled.run {c : Course R} (h : c.Settled) {ms : List Move}
    (run : ∀ seq, .complete seq ∉ ms) : (c.run ms).Settled := by
  induction ms generalizing c with
  | nil => exact h
  | cons m ms ih =>
    have first : ∀ seq, m ≠ .complete seq := fun seq e => run seq (e ▸ List.mem_cons_self)
    exact ih (h.after first) fun seq later => run seq (List.mem_cons_of_mem _ later)

end Course

/-! ## Where a fault goes back to -/

/-- In every course of a recipe that was installed, a fault goes back to the first unfinished line, or
stays at the cursor, exactly when there is such a line or none is held to be in flight. Otherwise it
goes back to a line whose motion has run. Nothing is held so when nothing was completed since the lines
in flight were settled. -/
theorem Executor.fault_rewinds [Scalar R] {x x₀ : Executor R} {files : FileStore}
    {path : Option String} {recipe : Recipe R} {start : Nat} {q : Queue R}
    (installed : x.install files path recipe start = (.ok (), x₀))
    (unclaimed : ∀ e ∈ q.entries, e.line = none) (ms : List Move) :
    let c := Course.run ⟨x₀, q⟩ ms
    let L := Ledger.empty.followAll ⟨x₀, q⟩ ms
    ∃ cursor line, c.executor.line? = some cursor ∧ c.fault.executor.line? = some line ∧
      (L.Rewinds cursor line ↔ (∃ i, L.Unfinished i) ∨ c.executor.inFlight = []) ∧
      (¬L.Rewinds cursor line → line < cursor ∧
        (∃ e ∈ L.standing, e.line = line ∧ e.primitives ≠ []) ∧ ∀ i, ¬L.Unfinished i) ∧
      ∀ ms₁ ms₂, ms = ms₁ ++ .settle :: ms₂ → (∀ seq, .complete seq ∉ ms₂) →
        L.Rewinds cursor line := by
  intro c L
  obtain ⟨library, s, start_eq, cursor_eq, -, le, rfl⟩ := install_eq_ok installed
  have motion : Queue.motion q.entries = [] := Queue.motion_eq_nil_iff.mpr unclaimed
  have begun : Ledger.empty.Kept ⟨{ x with library := library }.begin s, q⟩ s :=
    .empty (.of_begin _ (start_eq.trans cursor_eq.symm) (cursor_eq ▸ le) motion)
      (start_eq.trans cursor_eq.symm) rfl motion
  obtain ⟨i, kept⟩ : ∃ i, L.Kept c { s with cursor := i } := begun.run ms
  have coherent := kept.coherent
  have cursor : c.executor.line? = some i := congrArg (Option.map Session.cursor) coherent.session
  have exact_ : ∃ line, c.fault.executor.line? = some line ∧
      (L.Rewinds i line ↔ (∃ i, L.Unfinished i) ∨ c.executor.inFlight = []) ∧
      (¬L.Rewinds i line → line = c.committed ∧ ∀ i, ¬L.Unfinished i) := by
    have line := coherent.fault_line
    rcases queue : Queue.motion c.queue.entries with _ | ⟨p, rest⟩
    · rw [queue] at line
      have none := kept.not_unfinished queue
      refine ⟨_, line, ?_, fun _ => ⟨rfl, none⟩⟩
      rw [or_iff_right (not_exists.mpr none)]
      exact kept.rewinds_iff_of_run queue
    · rw [queue] at line
      have rewinds := kept.rewinds_of_queued queue
      refine ⟨_, line, ⟨fun _ => .inl ⟨p.1, ?_⟩, fun _ => rewinds⟩, absurd rewinds⟩
      exact kept.unfinished_iff.mpr ⟨p, by simp [queue], rfl⟩
  obtain ⟨line, line_eq, iff, stale⟩ := exact_
  refine ⟨i, line, cursor, line_eq, iff, fun wrong => ?_, fun ms₁ ms₂ split run => ?_⟩
  · obtain ⟨rfl, none⟩ := stale wrong
    rcases coherent.committed_mem with hm | ⟨settled, -⟩
    · obtain ⟨l, hl, e⟩ := List.mem_map.mp hm
      obtain ⟨e', he', line', some⟩ := kept.exists_of_inFlight hl
      exact ⟨e ▸ (coherent.bounds l hl).2, ⟨e', he', line'.trans e, some⟩, none⟩
    · exact absurd (iff.mpr (.inr settled)) wrong
  · have settled : c.Settled := by
      have parts : c = (((Course.run _ ms₁).after .settle).run ms₂) :=
        (congrArg (Course.run _) split).trans (Course.run_append ..)
      rw [parts]
      exact (Course.settle_settled _).run run
    refine iff.mpr ?_
    rcases queue : Queue.motion c.queue.entries with _ | ⟨p, rest⟩
    · exact .inr (settled queue)
    · exact .inl ⟨p.1, kept.unfinished_iff.mpr ⟨p, by simp [queue], rfl⟩⟩

namespace Bench

/-- All lines are queued. Their motion is half done, and the lines in flight are settled. -/
def settledMoves : List Move :=
  [.setReady true, .settle, .step, .step, .step, .complete 0, .complete 1, .settle]

/-- The fault goes back to the line that is half done. -/
theorem settled_rewinds :
    executor.install (.empty []) none recipe 0 = (.ok (), loaded) ∧
      (∀ e ∈ (Queue.empty 8 : Queue Whole).entries, e.line = none) ∧
      (Course.run ⟨loaded, .empty 8⟩ settledMoves).fault.executor.line? = some 2 ∧
      (Ledger.empty.followAll ⟨loaded, .empty 8⟩ settledMoves).Rewinds 3 2 := by
  have unclaimed : ∀ e ∈ (Queue.empty 8 : Queue Whole).entries, e.line = none :=
    List.forall_mem_nil _
  have now : (Course.run ⟨loaded, .empty 8⟩ settledMoves).executor.line? = some 3 := by
    decide +kernel
  have back : (Course.run ⟨loaded, .empty 8⟩ settledMoves).fault.executor.line? = some 2 := by
    decide +kernel
  obtain ⟨cursor, line, cursor_eq, line_eq, -, -, settled⟩ :=
    Executor.fault_rewinds install_eq unclaimed settledMoves
  obtain rfl := Option.some.inj (now.symm.trans cursor_eq)
  obtain rfl := Option.some.inj (back.symm.trans line_eq)
  exact ⟨install_eq, unclaimed, back, settled settledMoves.dropLast [] rfl fun _ => List.not_mem_nil⟩

/-- All lines are queued and settled, and then their motion completes. -/
def unsettledMoves : List Move :=
  [.setReady true, .settle, .step, .step, .step, .settle, .complete 0, .complete 1, .complete 2]

/-- When all motion completes between settling and a fault, the fault goes back to a line whose motion
has run. -/
theorem unsettled_rewinds :
    ¬∀ (ms : List Move) (cursor line : Nat),
      (Course.run ⟨loaded, .empty 8⟩ ms).executor.line? = some cursor →
      (Course.run ⟨loaded, .empty 8⟩ ms).fault.executor.line? = some line →
      (Ledger.empty.followAll ⟨loaded, .empty 8⟩ ms).Rewinds cursor line := by
  intro rewinds
  have now : (Course.run ⟨loaded, .empty 8⟩ unsettledMoves).executor.line? = some 3 := by
    decide +kernel
  have back : (Course.run ⟨loaded, .empty 8⟩ unsettledMoves).fault.executor.line? = some 0 := by
    decide +kernel
  have run : ¬(Ledger.empty.followAll ⟨loaded, .empty 8⟩ unsettledMoves).Unfinished 0 := by
    decide +kernel
  rcases (rewinds _ _ _ now back).place with unfinished | ⟨-, cursor⟩
  · exact run unfinished
  · cases cursor

end Bench

end Winding

import Winding.Proofs.Execution.Wire

/-!
# The count of planned lines

An executor counts the lines that it plans. A fault takes lines back by the list of lines in flight,
where a line without primitives never is: such a line stays counted when the cursor goes back over
it, and it is counted again when it is planned again. So the count is the way from the start to the
cursor, plus the lines without primitives that faults went back over (`Executor.install_counts`).
-/

namespace Winding

variable {R : Type}

/-- Nothing is queued for the line. -/
def Emission.isStill (e : Emission R) : Bool := e.primitives.isEmpty

/-- Lines have motion, or they are still. -/
theorem Emission.length_filter_from (es : List (Emission R)) (i : Nat) :
    (es.filter fun e => i ≤ e.line).length =
      ((es.filterMap inFlight?).filter fun p => i ≤ p.1).length +
        (es.filter fun e => i ≤ e.line).countP isStill := by
  induction es with
  | nil => rfl
  | cons e es ih =>
    by_cases still : e.primitives.isEmpty
    · have none : e.inFlight? = none := if_pos still
      rw [List.filterMap_cons_none none]
      by_cases le : i ≤ e.line
      · rw [List.filter_cons_of_pos (by simpa using le), List.length_cons,
          List.countP_cons_of_pos (p := isStill) still, ih]
        omega
      · rw [List.filter_cons_of_neg (by simpa using le), ih]
    · have some : e.inFlight? = some (e.line, e.wire) := if_neg still
      rw [List.filterMap_cons_some some]
      by_cases le : i ≤ e.line
      · rw [List.filter_cons_of_pos (by simpa using le), List.filter_cons_of_pos (by simpa using le),
          List.length_cons, List.length_cons, List.countP_cons_of_neg (p := isStill) still, ih]
        omega
      · rw [List.filter_cons_of_neg (by simpa using le), List.filter_cons_of_neg (by simpa using le),
          ih]

variable [Scalar R]

namespace Ledger

/-! ## What a fault strikes out -/

/-- What a fault of the course strikes out: the emissions from the line on that it goes back to. -/
def struck (L : Ledger R) (c : Course R) : List (Emission R) :=
  L.standing.filter fun e => c.fault.executor.line?.getD 0 ≤ e.line

/-- The lines that a move takes back but leaves counted. -/
def missed (L : Ledger R) (c : Course R) : Move → Nat
  | .fault => (L.struck c).countP Emission.isStill
  | _ => 0

/-- The lines that moves take back but leave counted. -/
def missedAll (L : Ledger R) (c : Course R) : List Move → Nat
  | [] => 0
  | m :: ms => L.missed c m + (L.follow c m).missedAll (c.after m) ms

theorem missed_quiet (L : Ledger R) (c : Course R) {m : Move} (h : m.isQuiet) :
    L.missed c m = 0 := by
  cases m <;> first | rfl | cases h

/-- A move leaves no line counted unless it is a fault that goes back over a still line. -/
theorem missed_eq_zero_iff {L : Ledger R} {c : Course R} {m : Move} :
    L.missed c m = 0 ↔ (m = .fault → ∀ e ∈ L.struck c, e.primitives ≠ []) := by
  by_cases fault : m = .fault
  · subst fault
    simp only [missed, List.countP_eq_zero, Emission.isStill, List.isEmpty_iff, forall_const, ne_eq]
  · have none : L.missed c m = 0 := by
      cases m with
      | fault => exact absurd rfl fault
      | step | complete | settle | requestStop | drain | arm | clearFault | spend | setReady => rfl
    simp only [none, fault, false_implies]

/-- No line stays counted exactly when each fault among the moves goes back over lines with
primitives only. -/
theorem missedAll_eq_zero_iff {L : Ledger R} {c : Course R} {ms : List Move} :
    L.missedAll c ms = 0 ↔ ∀ before later, ms = before ++ .fault :: later →
      ∀ e ∈ (L.followAll c before).struck (c.run before), e.primitives ≠ [] := by
  induction ms generalizing L c with
  | nil =>
    refine iff_of_true rfl fun before later split => ?_
    cases before <;> cases split
  | cons m ms ih =>
    rw [missedAll, Nat.add_eq_zero_iff, missed_eq_zero_iff, ih]
    constructor
    · rintro ⟨first, rest⟩ (_ | ⟨m', before⟩) later split
      · obtain ⟨rfl, -⟩ := List.cons.inj split
        exact first rfl
      · obtain ⟨rfl, tail⟩ := List.cons.inj split
        exact rest before later tail
    · intro all
      refine ⟨fun fault => all [] ms (by rw [fault]; rfl), fun before later split => ?_⟩
      exact all (m :: before) later (by rw [split]; rfl)

/-! ## Keeping count -/

/-- The ledger agrees with the course, and the executor counts the emissions that stand and `n` lines
more. -/
structure Counted (L : Ledger R) (c : Course R) (s : Session R) (n : Nat) : Prop where
  kept : L.Kept c s
  emitted : c.executor.emitted = L.standing.length + n

namespace Counted

variable {L : Ledger R} {c : Course R} {s : Session R} {n : Nat}

omit [Scalar R] in
theorem emitted_eq (h : L.Counted c s n) : c.executor.emitted = s.cursor - s.start + n := by
  have length : L.standing.length = s.cursor - s.start := by
    rw [← List.length_map, h.kept.lines, List.length_range']
  rw [h.emitted, length]

/-- A line is counted when it is queued. -/
theorem step (h : L.Counted c s n) :
    ∃ i, (L.follow c .step).Counted (c.after .step) { s with cursor := i } n := by
  obtain ⟨i, kept⟩ := h.kept.step
  refine ⟨i, kept, ?_⟩
  rcases c.step_cases with ⟨s', plan, q, session, -, planned, -, emits, e⟩ | ⟨emits, quiet, -⟩
  · have followed := L.follow_emits emits session planned
    have counted : (c.after .step).executor.emitted = c.executor.emitted + 1 := by
      rw [e]
      rfl
    rw [counted, followed, emit, List.length_append, List.length_singleton, h.emitted]
    omega
  · rw [L.follow_idle emits, quiet.emitted, h.emitted]

/-- A fault takes back one for each line that was in flight, which is not one for each line. -/
theorem fault (h : L.Counted c s n) :
    ∃ i, (L.follow c .fault).Counted c.fault { s with cursor := i } (n + L.missed c .fault) := by
  obtain ⟨j, kept⟩ := h.kept.fault
  refine ⟨j, kept, ?_⟩
  obtain ⟨i, -, -, -, place, e⟩ := h.kept.coherent.fault_eq
  have line : c.fault.executor.line?.getD 0 = i := by rw [e]; rfl
  have followed : L.follow c .fault = L.rewind i := by rw [follow, line]
  have first := Executor.inFlight_of_place place
  have taken : c.fault.executor.emitted =
      L.standing.length + n - (c.executor.inFlightFrom i).length := by rw [e, h.emitted]
  have inFlight := congrArg List.length (h.kept.inFlight_from first)
  rw [List.length_map] at inFlight
  have struck := Emission.length_filter_from L.standing i
  have parts : L.standing.length = (L.standing.filter fun e => e.line < i).length +
      (L.standing.filter fun e => i ≤ e.line).length := by
    have := List.length_eq_length_filter_add (l := L.standing) fun e => decide (e.line < i)
    simpa only [← decide_not, not_lt] using this
  rw [taken, followed, missed, Ledger.struck, line]
  simp only [rewind]
  omega

/-- A move keeps the count, up to the lines that it leaves counted. -/
theorem move (h : L.Counted c s n) (m : Move) :
    ∃ i, (L.follow c m).Counted (c.after m) { s with cursor := i } (n + L.missed c m) := by
  rcases m.kinds with rfl | ⟨seq, rfl⟩ | rfl | quiet
  · exact h.step
  · exact ⟨s.cursor, h.kept.retires (.complete c.queue seq), h.emitted⟩
  · exact h.fault
  · obtain ⟨i, kept⟩ := h.kept.move m
    rw [L.follow_quiet c quiet] at kept ⊢
    rw [L.missed_quiet c quiet]
    exact ⟨i, kept, (c.after_quiet quiet).emitted.trans h.emitted⟩

/-- A course keeps the count, up to the lines that its faults leave counted. -/
theorem run (h : L.Counted c s n) (ms : List Move) :
    ∃ i, (L.followAll c ms).Counted (c.run ms) { s with cursor := i } (n + L.missedAll c ms) := by
  induction ms generalizing L c s n with
  | nil => exact ⟨s.cursor, h⟩
  | cons m ms ih =>
    obtain ⟨i, hi⟩ := h.move m
    obtain ⟨j, hj⟩ := ih hi
    rw [Nat.add_assoc] at hj
    exact ⟨j, hj⟩

end Counted

end Ledger

/-! ## The count of a session -/

/-- Of a recipe that was installed, while the queue held no line of a recipe: after any moves, the
executor has counted one for each line from the start to the cursor, and one more for each line
without primitives that a fault went back over. So the count is that of the lines exactly if each
fault went back over lines with primitives only. -/
theorem Executor.install_counts {x x₀ : Executor R} {files : FileStore} {path : Option String}
    {recipe : Recipe R} {start : Nat} {q : Queue R}
    (installed : x.install files path recipe start = (.ok (), x₀))
    (unclaimed : ∀ e ∈ q.entries, e.line = none) (ms : List Move) :
    let c := Course.run ⟨x₀, q⟩ ms
    ∃ cursor, c.executor.line? = some cursor ∧ start ≤ cursor ∧
      c.executor.emitted = cursor - start + Ledger.empty.missedAll ⟨x₀, q⟩ ms ∧
      (c.executor.emitted = cursor - start ↔ ∀ before later, ms = before ++ .fault :: later →
        ∀ e ∈ (Ledger.empty.followAll ⟨x₀, q⟩ before).struck (Course.run ⟨x₀, q⟩ before),
          e.primitives ≠ []) := by
  intro c
  obtain ⟨library, s, start_eq, cursor_eq, -, le, rfl⟩ := install_eq_ok installed
  have motion : Queue.motion q.entries = [] := Queue.motion_eq_nil_iff.mpr unclaimed
  have begun : Ledger.empty.Counted ⟨{ x with library := library }.begin s, q⟩ s 0 :=
    ⟨.empty (.of_begin _ (start_eq.trans cursor_eq.symm) (cursor_eq ▸ le) motion)
      (start_eq.trans cursor_eq.symm) rfl motion, rfl⟩
  obtain ⟨i, counted⟩ := begun.run ms
  have emitted := counted.emitted_eq
  rw [Nat.zero_add] at emitted
  subst start_eq
  refine ⟨i, ?_, counted.kept.coherent.start_le, emitted, ?_⟩
  · rw [Executor.line?, counted.kept.coherent.session]
    rfl
  · rw [← Ledger.missedAll_eq_zero_iff, emitted]
    simp only
    omega

namespace Bench

/-- The move is queued and the line after it is planned when the controller fails. -/
def stillMoves : List Move := [.setReady true, .step, .step, .fault]

/-- The fault goes back over both lines, and the second one stays counted. -/
theorem still_counts :
    executor.install (.empty []) none recipe 0 = (.ok (), loaded) ∧
      (∀ e ∈ (Queue.empty 8 : Queue Whole).entries, e.line = none) ∧
      let c := Course.run ⟨loaded, .empty 8⟩ stillMoves
      c.executor.line? = some 0 ∧ Ledger.empty.missedAll ⟨loaded, .empty 8⟩ stillMoves = 1 ∧
        c.executor.emitted = 0 + 1 := by
  have unclaimed : ∀ e ∈ (Queue.empty 8 : Queue Whole).entries, e.line = none :=
    List.forall_mem_nil _
  have now : (Course.run ⟨loaded, .empty 8⟩ stillMoves).executor.line? = some 0 := by
    decide +kernel
  have missed : Ledger.empty.missedAll ⟨loaded, .empty 8⟩ stillMoves = 1 := by decide +kernel
  obtain ⟨cursor, line, -, emitted, -⟩ := Executor.install_counts install_eq unclaimed stillMoves
  obtain rfl := Option.some.inj (now.symm.trans line)
  rw [missed] at emitted
  exact ⟨install_eq, unclaimed, now, missed, emitted⟩

/-- After a fault that goes back over a line without primitives, more lines are counted than lie
before the cursor. -/
theorem still_line_stays_counted :
    executor.install (.empty []) none recipe 0 = (.ok (), loaded) ∧
      ¬ ∀ cursor, (Course.run ⟨loaded, .empty 8⟩ stillMoves).executor.line? = some cursor →
        (Course.run ⟨loaded, .empty 8⟩ stillMoves).executor.emitted = cursor - 0 := by
  refine ⟨install_eq, fun counts => ?_⟩
  have now : (Course.run ⟨loaded, .empty 8⟩ stillMoves).executor.line? = some 0 := by
    decide +kernel
  have emitted : (Course.run ⟨loaded, .empty 8⟩ stillMoves).executor.emitted = 1 := by
    decide +kernel
  have none := counts 0 now
  omega

end Bench

end Winding

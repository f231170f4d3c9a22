import Mathlib.Data.List.Induction
import Mathlib.Data.List.TakeWhile
import Mathlib.Order.Basic
import Winding.Proofs.Execution.Course

/-!
# Coherence of executor, session and queue

While a session is wound, the lines in flight are lines from its start to its cursor, in order, and
every recipe line that is queued is one of them (`Course.Coherent`). All moves keep this
(`Course.Coherent.run`), and with it a fault goes back to a line in flight, or nowhere
(`Course.Coherent.fault_eq`).
-/

namespace Winding

variable {R : Type} [Scalar R]

/-! ## Taking lines back -/

namespace Executor

/-- The lines in flight from a line on. -/
def inFlightFrom (x : Executor R) (i : Nat) : List (InFlight R) :=
  x.inFlight.filter fun l => i ≤ l.index

omit [Scalar R] in
theorem mem_inFlight_of_head? {x : Executor R} {i : Nat} {l : InFlight R}
    (h : l ∈ (x.inFlightFrom i).head?) : l ∈ x.inFlight :=
  (List.mem_filter.mp (List.mem_of_mem_head? h)).1

omit [Scalar R] in
theorem inFlight_of_place {x : Executor R} {i cursor : Nat}
    (place : (∃ l ∈ (x.inFlightFrom i).head?, l.index = i) ∨
      x.inFlightFrom i = [] ∧ i = cursor) :
    i ∈ x.inFlight.map InFlight.index ∨ i = cursor := by
  refine place.imp ?_ And.right
  rintro ⟨l, hl, rfl⟩
  exact List.mem_map_of_mem (mem_inFlight_of_head? hl)

omit [Scalar R] in
/-- In order, the lines from a line on are the ones at the end. -/
theorem takeWhile_reverse {ls : List (InFlight R)} (i : Nat)
    (h : (ls.map InFlight.index).Pairwise (· < ·)) :
    (ls.reverse.takeWhile fun l => i ≤ l.index) = (ls.filter fun l => i ≤ l.index).reverse := by
  induction ls using List.reverseRecOn with
  | nil => rfl
  | append_singleton ls l ih =>
    rw [List.map_append, List.pairwise_append] at h
    obtain ⟨sorted, -, below⟩ := h
    rw [List.reverse_append, List.filter_append, List.reverse_append]
    by_cases hl : i ≤ l.index
    · simp [hl, ih sorted]
    · have early : ls.filter (fun l => i ≤ l.index) = [] := by
        refine List.filter_eq_nil_iff.mpr fun k hk => ?_
        have : k.index < l.index :=
          below k.index (List.mem_map_of_mem hk) l.index (List.mem_singleton_self _)
        simp only [decide_eq_true_eq]
        omega
      simp [hl, early]

/-- Taking lines back leaves the session. -/
theorem foldl_takeBack_session (ls : List (InFlight R)) (x : Executor R) :
    (ls.foldl takeBack x).session = x.session := by
  induction ls generalizing x with
  | nil => rfl
  | cons l ls ih => exact ih _

/-- Taking lines back, newest first, ends at the pose before the first of them. -/
theorem foldl_takeBack (ls : List (InFlight R)) (x : Executor R) :
    ls.reverse.foldl takeBack x =
      { x with
        wire := ls.reverse.foldl (fun w l => w - l.wire) x.wire
        emitted := x.emitted - ls.length
        pose := (ls.head?.map InFlight.before).getD x.pose } := by
  induction ls with
  | nil => rfl
  | cons l ls ih =>
    rw [List.reverse_cons, List.foldl_append, ih]
    simp [takeBack, Nat.sub_sub]

end Executor

/-! ## Loading -/

/-- What installing a recipe makes of an executor: a session at its start. -/
theorem Executor.install_eq_ok {x x₀ : Executor R} {files : FileStore} {path : Option String}
    {recipe : Recipe R} {start : Nat} (h : x.install files path recipe start = (.ok (), x₀)) :
    ∃ library s, s.start = start ∧ s.cursor = start ∧ s.lines = recipe.lines ∧
      start ≤ s.lines.length ∧ x₀ = { x with library := library }.begin s := by
  unfold install at h
  split at h
  · cases h
  · split at h
    · cases h
    · rcases hg : x.library.get files recipe.layer with ⟨found, library⟩
      rw [hg] at h
      simp only at h
      split at h
      · cases h
      · next table =>
        split at h
        · cases h
        · next qualified =>
          obtain ⟨-, rfl⟩ := Prod.mk.inj h
          refine ⟨library, _, rfl, rfl, rfl, ?_, rfl⟩
          unfold qualify at qualified
          split at qualified
          · cases qualified
          · split at qualified
            · cases qualified
            · split at qualified
              · cases qualified
              · exact Nat.le_of_not_lt ‹_›

/-! ## Coherence -/

/-- The executor winds the session, and the queue holds lines of it that are in flight. -/
structure Course.Coherent (c : Course R) (s : Session R) : Prop where
  session : c.executor.session = some s
  start_le : s.start ≤ s.cursor
  cursor_le : s.cursor ≤ s.lines.length
  /-- Lines go in flight in order. -/
  sorted : (c.executor.inFlight.map InFlight.index).Pairwise (· < ·)
  bounds : ∀ l ∈ c.executor.inFlight, s.start ≤ l.index ∧ l.index < s.cursor
  queue_sorted : ((Queue.motion c.queue.entries).map Prod.fst).Pairwise (· ≤ ·)
  queued : ∀ p ∈ Queue.motion c.queue.entries, p.1 ∈ c.executor.inFlight.map InFlight.index
  done : c.executor.state = .done → s.cursor = s.lines.length

namespace Course.Coherent

variable {c : Course R} {s : Session R}

omit [Scalar R] in
/-- Only the session, the lines in flight, the recipe motion and the end of the recipe matter. -/
theorem congr (h : c.Coherent s) {c' : Course R} (session : c'.executor.session = some s)
    (inFlight : c'.executor.inFlight = c.executor.inFlight)
    (motion : Queue.motion c'.queue.entries = Queue.motion c.queue.entries)
    (done : c'.executor.state = .done → s.cursor = s.lines.length) : c'.Coherent s where
  session := session
  start_le := h.start_le
  cursor_le := h.cursor_le
  sorted := inFlight ▸ h.sorted
  bounds := inFlight ▸ h.bounds
  queue_sorted := motion ▸ h.queue_sorted
  queued := by rw [motion, inFlight]; exact h.queued
  done := done

omit [Scalar R] in
/-- A session without motion is coherent. -/
theorem of_rest {x : Executor R} {q : Queue R} (session : x.session = some s)
    (start_le : s.start ≤ s.cursor) (cursor_le : s.cursor ≤ s.lines.length)
    (inFlight : x.inFlight = []) (motion : Queue.motion q.entries = [])
    (done : x.state = .done → s.cursor = s.lines.length) : Coherent ⟨x, q⟩ s where
  session := session
  start_le := start_le
  cursor_le := cursor_le
  sorted := by simp [inFlight]
  bounds := by simp [inFlight]
  queue_sorted := by simp [motion]
  queued := by simp [motion]
  done := done

/-- A session that begins is coherent with a queue of manual motion. -/
theorem of_begin (x : Executor R) {q : Queue R} (start : s.start = s.cursor)
    (cursor_le : s.cursor ≤ s.lines.length) (motion : Queue.motion q.entries = []) :
    Coherent ⟨x.begin s, q⟩ s :=
  of_rest rfl start.le cursor_le rfl motion nofun

omit [Scalar R] in
theorem of_session_eq {s' : Session R} (h : c.Coherent s') (e : c.executor.session = some s) :
    c.Coherent s := by
  obtain rfl := Option.some.inj (h.session.symm.trans e)
  exact h

/-! ### Steps -/

/-- A step that queues the line under the cursor keeps coherence. -/
theorem queued_line (h : c.Coherent s) {plan : LinePlan R} {q' : Queue R}
    (cursor : s.cursor < s.lines.length)
    (pushed : c.queue.pushAll (some s.cursor) plan.primitives = .ok q') :
    Coherent ⟨c.executor.advance s plan, q'⟩ { s with cursor := s.cursor + 1 } := by
  have motion : Queue.motion q'.entries =
      Queue.motion c.queue.entries ++ plan.primitives.map fun p => (s.cursor, p) := by
    rw [Queue.pushAll_eq_ok pushed, Queue.motion_append, Queue.motion_number]
  have before (p) (hp : p ∈ Queue.motion c.queue.entries) : p.1 < s.cursor := by
    obtain ⟨l, hl, e⟩ := List.mem_map.mp (h.queued p hp)
    have := (h.bounds l hl).2
    omega
  have inFlight : (c.executor.advance s plan).inFlight =
      if plan.primitives.isEmpty then c.executor.inFlight
      else c.executor.inFlight ++ [⟨s.cursor, plan.wire, c.executor.pose⟩] := rfl
  refine ⟨rfl, Nat.le_succ_of_le h.start_le, cursor, ?_, ?_, ?_, ?_, ?_⟩
  · rw [inFlight]
    split
    · exact h.sorted
    · rw [List.map_append, List.pairwise_append]
      refine ⟨h.sorted, List.pairwise_singleton _ _, fun i hi j hj => ?_⟩
      obtain ⟨l, hl, rfl⟩ := List.mem_map.mp hi
      obtain rfl : j = s.cursor := by simpa using hj
      exact (h.bounds l hl).2
  · intro l hl
    rw [inFlight] at hl
    have old (hl : l ∈ c.executor.inFlight) : s.start ≤ l.index ∧ l.index < s.cursor + 1 :=
      ⟨(h.bounds l hl).1, Nat.lt_succ_of_lt (h.bounds l hl).2⟩
    split at hl
    · exact old hl
    · rcases List.mem_append.mp hl with hl | hl
      · exact old hl
      · obtain rfl := List.mem_singleton.mp hl
        exact ⟨h.start_le, Nat.lt_succ_self _⟩
  · rw [motion, List.map_append, List.pairwise_append]
    refine ⟨h.queue_sorted, ?_, fun i hi j hj => ?_⟩
    · simp [Function.comp_def, List.map_const']
    · obtain ⟨p, hp, rfl⟩ := List.mem_map.mp hi
      obtain ⟨o, ho, rfl⟩ := List.mem_map.mp hj
      obtain ⟨a, -, rfl⟩ := List.mem_map.mp ho
      exact (before p hp).le
  · intro p hp
    rw [inFlight]
    rw [motion] at hp
    split
    · next empty =>
      rw [List.isEmpty_iff.mp empty, List.map_nil, List.append_nil] at hp
      exact h.queued p hp
    · rw [List.map_append]
      rcases List.mem_append.mp hp with hp | hp
      · exact List.mem_append_left _ (h.queued p hp)
      · obtain ⟨a, -, rfl⟩ := List.mem_map.mp hp
        exact List.mem_append_right _ (List.mem_singleton_self _)
  · intro done
    simp only [Executor.advance] at done
    split at done
    · cases done
    · split at done
      · exact Nat.le_antisymm cursor ‹_›
      · cases done

theorem step (h : c.Coherent s) : ∃ i, (c.after .step).Coherent { s with cursor := i } := by
  have stepped := c.executor.step_stepped c.queue
  simp only [after]
  generalize c.executor.step c.queue = r at stepped ⊢
  rcases stepped with ⟨session, -, cursor, -, pushed⟩ | last | ⟨-, -, -⟩ | - | - | -
  · obtain rfl := Option.some.inj (h.session.symm.trans session)
    exact ⟨_, h.queued_line cursor pushed⟩
  · refine ⟨s.cursor, h.congr h.session rfl rfl fun _ => ?_⟩
    rcases last with hd | ⟨s', session, -, hl⟩
    · exact h.done hd
    · obtain rfl := Option.some.inj (h.session.symm.trans session)
      exact Nat.le_antisymm h.cursor_le hl
  · exact ⟨s.cursor, h.congr h.session rfl rfl (by simp)⟩
  · exact ⟨s.cursor, h⟩
  · exact ⟨s.cursor, h.congr h.session rfl rfl (by simp)⟩
  · exact ⟨s.cursor, h⟩

/-! ### Settling -/

omit [Scalar R] in
/-- Entries leave the queue at its front, so lines of the rest are in flight as before. -/
theorem retires (h : c.Coherent s) {q : Queue R} (hq : c.queue.Retires q) :
    Coherent ⟨c.executor, q⟩ s := by
  have split := congrArg Queue.motion hq.entries_eq
  rw [Queue.motion_append] at split
  refine ⟨h.session, h.start_le, h.cursor_le, h.sorted, h.bounds, ?_, fun p hp => ?_, h.done⟩
  · have sorted := h.queue_sorted
    rw [split, List.map_append, List.pairwise_append] at sorted
    exact sorted.2.1
  · exact h.queued p (by rw [split]; exact List.mem_append_right _ hp)

/-- What settling forgets is before every line that is queued. -/
theorem settle (h : c.Coherent s) : (c.after .settle).Coherent s := by
  have part := List.dropWhile_sublist (l := c.executor.inFlight)
    fun l => !c.queue.oldestLine?.any (· ≤ l.index)
  refine ⟨h.session, h.start_le, h.cursor_le, h.sorted.sublist (part.map _),
    fun l hl => h.bounds l (part.subset hl), h.queue_sorted, fun p hp => ?_, h.done⟩
  change p ∈ Queue.motion c.queue.entries at hp
  obtain ⟨l, hl, e⟩ := List.mem_map.mp (h.queued p hp)
  refine List.mem_map.mpr ⟨l, ?_, e⟩
  rw [← List.takeWhile_append_dropWhile
    (l := c.executor.inFlight) (p := fun l => !c.queue.oldestLine?.any (· ≤ l.index))] at hl
  rcases List.mem_append.mp hl with hl | hl
  · exfalso
    have oldest : c.queue.oldestLine?.any (· ≤ l.index) = true := by
      rw [Queue.oldestLine?_eq, e]
      have sorted := h.queue_sorted
      rcases hm : Queue.motion c.queue.entries with _ | ⟨o, rest⟩
      · simp [hm] at hp
      · rw [hm, List.map_cons, List.pairwise_cons] at sorted
        rw [hm] at hp
        rcases List.mem_cons.mp hp with rfl | hp
        · simp
        · simpa using sorted.1 p.1 (List.mem_map_of_mem hp)
    simpa [oldest] using List.mem_takeWhile_imp hl
  · exact hl

/-! ### Faults -/

omit [Scalar R] in
/-- A fault goes back to the oldest line that is queued, or else to the oldest in flight, or stays at
the cursor. -/
theorem rewindLine?_eq (h : c.Coherent s) :
    c.executor.rewindLine? (c.queue.entries.filterMap QueueEntry.line).min? =
      some (((Queue.motion c.queue.entries).head?.map Prod.fst).getD
        ((c.executor.inFlight.head?.map InFlight.index).getD s.cursor)) := by
  have oldest : (c.queue.entries.filterMap QueueEntry.line).min? =
      (Queue.motion c.queue.entries).head?.map Prod.fst := by
    rw [Queue.filterMap_line, ← List.head?_map]
    exact List.min?_eq_head? (h.queue_sorted.imp fun hab => Nat.min_eq_left hab)
  rw [oldest, Executor.rewindLine?, Executor.line?, h.session]
  cases (Queue.motion c.queue.entries).head? <;> cases c.executor.inFlight.head? <;> rfl

omit [Scalar R] in
/-- A fault goes back to a line in flight, or stays at the cursor when none is. No line that is
queued is before that. -/
theorem rewindLine_eq (h : c.Coherent s) :
    ∃ i, c.executor.rewindLine? (c.queue.entries.filterMap QueueEntry.line).min? = some i ∧
      (i ∈ c.executor.inFlight.map InFlight.index ∨
        c.executor.inFlight = [] ∧ i = s.cursor) ∧
      ∀ p ∈ Queue.motion c.queue.entries, i ≤ p.1 := by
  refine ⟨_, h.rewindLine?_eq, ?_⟩
  have sorted := h.queue_sorted
  rcases hm : Queue.motion c.queue.entries with _ | ⟨o, rest⟩
  · rcases hi : c.executor.inFlight with _ | ⟨l, ls⟩
    · exact ⟨.inr ⟨rfl, rfl⟩, nofun⟩
    · exact ⟨.inl (by simp), nofun⟩
  · refine ⟨.inl (h.queued o (by simp [hm])), fun p hp => ?_⟩
    rw [hm, List.map_cons, List.pairwise_cons] at sorted
    rcases List.mem_cons.mp hp with rfl | hp
    · exact Nat.le_refl _
    · exact sorted.1 p.1 (List.mem_map_of_mem hp)

/-- A fault takes back the lines in flight from a line on, and that line is the first of them or the
cursor. -/
theorem fault_eq (h : c.Coherent s) :
    ∃ i, s.start ≤ i ∧ i ≤ s.cursor ∧ (∀ p ∈ Queue.motion c.queue.entries, i ≤ p.1) ∧
      ((∃ l ∈ (c.executor.inFlightFrom i).head?, l.index = i) ∨
        c.executor.inFlightFrom i = [] ∧ i = s.cursor) ∧
      c.fault =
        ⟨{ c.executor with
            session := some { s with cursor := i }
            pose := ((c.executor.inFlightFrom i).head?.map InFlight.before).getD c.executor.pose
            wire := (c.executor.inFlightFrom i).reverse.foldl (fun w l => w - l.wire)
              c.executor.wire
            emitted := c.executor.emitted - (c.executor.inFlightFrom i).length
            inFlight := []
            state := .faulted }, { c.queue with entries := [] }⟩ := by
  obtain ⟨i, hi, place, queue⟩ := h.rewindLine_eq
  have bounds : s.start ≤ i ∧ i ≤ s.cursor := by
    rcases place with hm | ⟨-, rfl⟩
    · obtain ⟨l, hl, rfl⟩ := List.mem_map.mp hm
      exact ⟨(h.bounds l hl).1, (h.bounds l hl).2.le⟩
    · exact ⟨h.start_le, Nat.le_refl _⟩
  refine ⟨i, bounds.1, bounds.2, queue, ?_, ?_⟩
  · rcases place with hm | ⟨none, rfl⟩
    · left
      obtain ⟨l, hl, rfl⟩ := List.mem_map.mp hm
      obtain ⟨before, after, split⟩ := List.append_of_mem hl
      have sorted := h.sorted
      rw [split, List.map_append, List.pairwise_append] at sorted
      have early : before.filter (fun k => l.index ≤ k.index) = [] := by
        refine List.filter_eq_nil_iff.mpr fun k hk => ?_
        have : k.index < l.index := sorted.2.2 _ (List.mem_map_of_mem hk) _ (by simp)
        simp only [decide_eq_true_eq]
        omega
      exact ⟨l, by simp [Executor.inFlightFrom, split, early], rfl⟩
    · right
      simp [Executor.inFlightFrom, none]
  · simp only [fault, Executor.fault, hi, Executor.rewind, Queue.clear]
    rw [Executor.takeWhile_reverse i h.sorted, Executor.foldl_takeBack]
    simp [h.session, Nat.min_eq_left bounds.2, Executor.inFlightFrom]

theorem fault (h : c.Coherent s) : ∃ i, c.fault.Coherent { s with cursor := i } := by
  obtain ⟨i, start_le, le_cursor, -, -, e⟩ := h.fault_eq
  rw [e]
  exact ⟨i, of_rest rfl start_le (le_cursor.trans h.cursor_le) rfl rfl nofun⟩

/-! ### Runs -/

theorem drain (h : c.Coherent s) : (c.after .drain).Coherent s := by
  simp only [after, Executor.drain]
  split
  · next hd =>
    have motion : Queue.motion c.queue.entries = [] := by
      rw [List.isEmpty_iff.mp hd.2, Queue.motion_nil]
    refine of_rest h.session h.start_le h.cursor_le rfl motion fun done => ?_
    by_cases hs : s.lines.length ≤ s.cursor
    · exact Nat.le_antisymm h.cursor_le hs
    · simp [h.session, hs] at done
  · exact h

theorem requestStop (h : c.Coherent s) : (c.after .requestStop).Coherent s := by
  simp only [after, Executor.requestStop]
  split
  · exact h.congr h.session rfl rfl (by simp)
  · exact h.congr h.session rfl rfl (by simp)
  · exact h.congr h.session rfl rfl (by simp)
  · exact h.congr h.session rfl rfl (by simp)
  all_goals exact h

theorem clearFault (h : c.Coherent s) : (c.after .clearFault).Coherent s := by
  simp only [after, Executor.clearFault]
  split
  · exact h.congr h.session rfl rfl (by simp [h.session, Except.toOption])
  · exact h

theorem arm (h : c.Coherent s) : (c.after .arm).Coherent s := by
  have cleared := h.clearFault
  simp only [after, Executor.arm] at cleared ⊢
  split
  · exact h
  · exact h
  · exact h
  · exact h.congr (by simp [h.session, Except.toOption]) (by simp [h.session, Except.toOption]) rfl
      (by simp [h.session, Except.toOption])
  · exact cleared
  · exact h
  · exact h

/-- A move keeps coherence; of the session, it changes only the cursor. -/
theorem move (h : c.Coherent s) (m : Move) : ∃ i, (c.after m).Coherent { s with cursor := i } := by
  cases m with
  | step => exact h.step
  | complete seq => exact ⟨s.cursor, h.retires (.complete c.queue seq)⟩
  | settle => exact ⟨s.cursor, h.settle⟩
  | fault => exact h.fault
  | requestStop => exact ⟨s.cursor, h.requestStop⟩
  | drain => exact ⟨s.cursor, h.drain⟩
  | arm => exact ⟨s.cursor, h.arm⟩
  | clearFault => exact ⟨s.cursor, h.clearFault⟩
  | spend ms => exact ⟨s.cursor, h.congr h.session rfl rfl h.done⟩
  | setReady ready => exact ⟨s.cursor, h.retires (.setReady c.queue ready)⟩

/-- A course keeps coherence. -/
theorem run (h : c.Coherent s) (ms : List Move) :
    ∃ i, (c.run ms).Coherent { s with cursor := i } := by
  induction ms generalizing c s with
  | nil => exact ⟨s.cursor, h⟩
  | cons m ms ih =>
    obtain ⟨i, hi⟩ := h.move m
    obtain ⟨j, hj⟩ := ih hi
    exact ⟨j, hj⟩

end Course.Coherent

end Winding

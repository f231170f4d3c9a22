import Mathlib.Order.Nat
import Winding.Proofs.Motion.Recipe

/-!
# The numbers of entries

Entries are numbered in the order in which they are pushed, and no number is given twice
(`Queue.Numbered`). Whether entries are pushed and dropped (`Queue.Steers`) or retired
(`Queue.Retires`), an entry that was not queued before has a number that was not given before
(`Queue.Succeeds`).
-/

namespace Winding.Queue

variable {R : Type} {q q' q'' : Queue R}

/-- The entries are numbered in order, below the number of the next one. -/
structure Numbered (q : Queue R) : Prop where
  sorted : q.entries.Pairwise fun e f => e.seq < f.seq
  below : ∀ e ∈ q.entries, e.seq < q.submitted

theorem numbered_empty (capacity : Nat) : (empty capacity : Queue R).Numbered := ⟨.nil, nofun⟩

/-- Everything behind the front has a later number. -/
theorem Numbered.eq_or_lt (h : q.Numbered) {e f : QueueEntry R} (front : q.front? = some e)
    (hf : f ∈ q.entries) : f = e ∨ e.seq < f.seq := by
  obtain ⟨rest, entries⟩ := List.head?_eq_some_iff.mp front
  have sorted := h.sorted
  rw [entries] at sorted hf
  exact (List.mem_cons.mp hf).imp_right (List.rel_of_pairwise_cons sorted)

/-- What is left when the front is retired has later numbers. -/
theorem Numbered.lt_of_mem_complete [Scalar R] (h : q.Numbered) {e f : QueueEntry R}
    (front : q.front? = some e) (hf : f ∈ (q.complete e.seq).2.entries) : e.seq < f.seq := by
  obtain ⟨rest, entries⟩ := List.head?_eq_some_iff.mp front
  have sorted := h.sorted
  rw [entries] at sorted
  have left : (q.complete e.seq).2.entries = rest := by simp [complete, entries]
  rw [left] at hf
  exact List.rel_of_pairwise_cons sorted hf

theorem mem_of_front {e : QueueEntry R} (front : q.front? = some e) : e ∈ q.entries :=
  List.mem_of_mem_head? front

/-! ## Change -/

/-- What is new in the second queue has a number that was not given in the first. -/
structure Succeeds (q q' : Queue R) : Prop where
  submitted : q.submitted ≤ q'.submitted
  entries : ∀ e ∈ q'.entries, e ∈ q.entries ∨ q.submitted ≤ e.seq

theorem Succeeds.refl (q : Queue R) : q.Succeeds q := ⟨le_refl _, fun _ => .inl⟩

theorem Succeeds.trans (h : q.Succeeds q') (h' : q'.Succeeds q'') : q.Succeeds q'' where
  submitted := h.submitted.trans h'.submitted
  entries e he := by
    rcases h'.entries e he with he | le
    · exact h.entries e he
    · exact .inr (h.submitted.trans le)

/-- What holds of all that is queued, and of all later entries, goes on to hold. -/
theorem Succeeds.forall_mem (h : q.Succeeds q') {p : QueueEntry R → Prop}
    (all : ∀ e ∈ q.entries, p e) (later : ∀ e, q.submitted ≤ e.seq → p e) :
    ∀ e ∈ q'.entries, p e :=
  fun e he => (h.entries e he).elim (all e) (later e)

theorem Retires.succeeds (h : q.Retires q') : q.Succeeds q' := by
  obtain ⟨k, -, entries, -, submitted, -⟩ := h
  refine ⟨submitted.ge, fun e he => .inl ?_⟩
  rw [entries] at he
  exact List.mem_of_mem_drop he

theorem Numbered.retires (h : q.Numbered) (hq : q.Retires q') : q'.Numbered := by
  obtain ⟨k, -, entries, -, submitted, -⟩ := hq
  constructor
  · rw [entries]
    exact h.sorted.drop
  · intro e he
    rw [entries] at he
    rw [submitted]
    exact h.below e (List.mem_of_mem_drop he)

/-- The second queue is the first after pushes that fit, and after all entries were dropped, in any
order and number. -/
inductive Steers : Queue R → Queue R → Prop
  | refl (q : Queue R) : Steers q q
  | push {q q' : Queue R} {line : Option Nat} {ps : List (Primitive R)}
      (pushed : q.pushAll line ps = .ok q') : Steers q q'
  | clear (q : Queue R) : Steers q q.clear.2
  | trans {q q' q'' : Queue R} (h : Steers q q') (h' : Steers q' q'') : Steers q q''

theorem seq_of_mem_number {seq : Nat} {line : Option Nat} {ps : List (Primitive R)}
    {e : QueueEntry R} (h : e ∈ number seq line ps) : seq ≤ e.seq ∧ e.seq < seq + ps.length := by
  induction ps generalizing seq with
  | nil => cases h
  | cons p ps ih =>
    rw [List.length_cons]
    rcases List.mem_cons.mp h with rfl | h
    · exact ⟨le_refl seq, Nat.lt_add_of_pos_right (Nat.succ_pos _)⟩
    · have := ih h
      omega

theorem sorted_number (seq : Nat) (line : Option Nat) (ps : List (Primitive R)) :
    (number seq line ps).Pairwise fun e f => e.seq < f.seq := by
  induction ps generalizing seq with
  | nil => exact .nil
  | cons p ps ih => exact .cons (fun e he => (seq_of_mem_number he).1) (ih (seq + 1))

theorem Steers.succeeds (h : q.Steers q') : q.Succeeds q' := by
  induction h with
  | refl q => exact .refl q
  | clear q => exact ⟨le_refl _, nofun⟩
  | trans _ _ ih ih' => exact ih.trans ih'
  | push pushed =>
    rw [pushAll_eq_ok pushed]
    refine ⟨Nat.le_add_right _ _, fun e he => ?_⟩
    exact (List.mem_append.mp he).imp_right fun he => (seq_of_mem_number he).1

theorem Numbered.steers (h : q.Numbered) (hq : q.Steers q') : q'.Numbered := by
  induction hq with
  | refl => exact h
  | clear q => exact ⟨.nil, nofun⟩
  | trans _ _ ih ih' => exact ih' (ih h)
  | push pushed =>
    rw [pushAll_eq_ok pushed]
    constructor
    · refine List.pairwise_append.mpr ⟨h.sorted, sorted_number _ _ _, fun e he f hf => ?_⟩
      exact (h.below e he).trans_le (seq_of_mem_number hf).1
    · intro e he
      rcases List.mem_append.mp he with he | he
      · exact (h.below e he).trans_le (Nat.le_add_right _ _)
      · exact (seq_of_mem_number he).2

end Winding.Queue

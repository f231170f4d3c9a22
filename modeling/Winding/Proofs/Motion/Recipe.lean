import Mathlib.Data.List.Basic
import Winding.Motion.Queue

/-!
# Recipe motion in the queue

An entry either belongs to a line of a recipe or is manual motion. `Queue.motion` keeps the entries
of recipes, each primitive with its line. A batch is added to it whole (`motion_number`), and
retiring entries takes a prefix of it off (`Queue.Retires`).
-/

namespace Winding

variable {R : Type}

/-- The line and the primitive of an entry; none for manual motion. -/
def QueueEntry.motion? (e : QueueEntry R) : Option (Nat × Primitive R) :=
  e.line.map fun i => (i, e.primitive)

namespace Queue

/-- The motion of recipes among entries, each primitive with its line. -/
def motion (es : List (QueueEntry R)) : List (Nat × Primitive R) :=
  es.filterMap QueueEntry.motion?

@[simp] theorem motion_nil : motion ([] : List (QueueEntry R)) = [] := rfl

@[simp] theorem motion_append (es fs : List (QueueEntry R)) :
    motion (es ++ fs) = motion es ++ motion fs := by
  simp [motion]

theorem motion_number (seq i : Nat) (ps : List (Primitive R)) :
    motion (number seq (some i) ps) = ps.map fun p => (i, p) := by
  induction ps generalizing seq with
  | nil => rfl
  | cons p ps ih =>
    rw [List.map_cons, ← ih (seq + 1)]
    rfl

theorem motion_eq_nil_iff {es : List (QueueEntry R)} :
    motion es = [] ↔ ∀ e ∈ es, e.line = none := by
  simp [motion, List.filterMap_eq_nil_iff, QueueEntry.motion?]

theorem motion_drop_eq_nil {es : List (QueueEntry R)} (k : Nat) (h : motion es = []) :
    motion (es.drop k) = [] :=
  motion_eq_nil_iff.mpr fun e he => motion_eq_nil_iff.mp h e (List.mem_of_mem_drop he)

/-- The lines of entries are the lines of their recipe motion. -/
theorem filterMap_line (es : List (QueueEntry R)) :
    es.filterMap QueueEntry.line = (motion es).map Prod.fst := by
  induction es with
  | nil => rfl
  | cons e es ih =>
    rcases h : e.line with _ | i <;>
      simp_all [motion, QueueEntry.motion?]

/-- The oldest line is the line of the first recipe motion. -/
theorem oldestLine?_eq (q : Queue R) : q.oldestLine? = (motion q.entries).head?.map Prod.fst := by
  rw [oldestLine?, ← List.head?_filterMap, filterMap_line, List.head?_map]

/-! ## Batches -/

theorem pushAll_eq_ok {q q' : Queue R} {line : Option Nat} {ps : List (Primitive R)}
    (h : q.pushAll line ps = .ok q') :
    q' = { q with
      entries := q.entries ++ number q.submitted line ps
      submitted := q.submitted + ps.length } := by
  unfold pushAll at h
  split at h
  · cases h
  · exact (Except.ok.inj h).symm

theorem push_eq_ok {q q' : Queue R} {line : Option Nat} {p : Primitive R}
    (h : q.push line p = .ok q') :
    q' = { q with
      entries := q.entries ++ [⟨q.submitted, line, p⟩]
      submitted := q.submitted + 1 } :=
  pushAll_eq_ok h

/-! ## Retirement -/

/-- The entries that left a queue at its front, read off the count of completed ones. -/
def taken (q q' : Queue R) : List (QueueEntry R) := q.entries.take (q'.completed - q.completed)

theorem taken_eq_nil {q q' : Queue R} (same : q'.completed = q.completed) : q.taken q' = [] := by
  rw [taken, same, Nat.sub_self, List.take_zero]

theorem taken_complete [Scalar R] {q : Queue R} {e : QueueEntry R} (front : q.front? = some e) :
    q.taken (q.complete e.seq).2 = [e] := by
  obtain ⟨rest, entries⟩ := List.head?_eq_some_iff.mp front
  simp [taken, complete, entries]

/-- The second queue is the first after entries were retired from its front, one by one. -/
def Retires (q q' : Queue R) : Prop :=
  ∃ k ≤ q.entries.length, q'.entries = q.entries.drop k ∧ q'.completed = q.completed + k ∧
    q'.submitted = q.submitted ∧ q'.capacity = q.capacity

namespace Retires

theorem refl (q : Queue R) : Retires q q := ⟨0, Nat.zero_le _, rfl, rfl, rfl, rfl⟩

theorem trans {q₁ q₂ q₃ : Queue R} (h : Retires q₁ q₂) (h' : Retires q₂ q₃) :
    Retires q₁ q₃ := by
  obtain ⟨k, hk, he, hc, hs, hcap⟩ := h
  obtain ⟨k', hk', he', hc', hs', hcap'⟩ := h'
  rw [he, List.length_drop] at hk'
  refine ⟨k + k', by omega, ?_, by omega, hs'.trans hs, hcap'.trans hcap⟩
  rw [he', he, List.drop_drop]

theorem setReady (q : Queue R) (ready : Bool) : Retires q (q.setReady ready) :=
  ⟨0, Nat.zero_le _, rfl, rfl, rfl, rfl⟩

theorem complete [Scalar R] (q : Queue R) (seq : Nat) : Retires q (q.complete seq).2 := by
  unfold Queue.complete
  split
  · exact refl q
  · next e rest he =>
    split
    · exact ⟨1, by simp [he], by simp [he], rfl, rfl, rfl⟩
    · exact refl q

/-- The entries that left a queue stood in front of those that stayed. -/
theorem entries_eq {q q' : Queue R} (h : Retires q q') :
    q.entries = q.taken q' ++ q'.entries := by
  unfold taken
  obtain ⟨k, hk, he, hc, -, -⟩ := h
  rw [hc, Nat.add_sub_cancel_left, he, List.take_append_drop]

end Retires

end Queue

end Winding

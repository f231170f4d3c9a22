import Winding.Proofs.Motion.Numbers

/-!
# The history of a queue

Those who share a queue ask it to take primitives, to retire its front, to drop everything and to
note the controller's readiness, in any order (`Queue.Request`). `Queue.History` keeps what they were
told: which primitives were taken, and which entries left and how. However long the history is, the
entries that left and those that wait are the primitives that were taken, each once and in order,
numbered from zero (`Queue.History.run_balanced`).
-/

namespace Winding.Queue

variable {R : Type}

/-- What a queue is asked for. -/
inductive Request (R : Type) where
  | push (line : Option Nat) (primitive : Primitive R)
  | pushAll (line : Option Nat) (primitives : List (Primitive R))
  | complete (seq : Nat)
  | clear
  | setReady (ready : Bool)

/-- How an entry leaves a queue. -/
inductive Departure (R : Type) where
  | retired (entry : QueueEntry R)
  | dropped (entry : QueueEntry R)

namespace Departure

/-- The entry that left. -/
def entry : Departure R → QueueEntry R
  | .retired e | .dropped e => e

/-- Whether the entry was retired. -/
def isRetired : Departure R → Bool
  | .retired _ => true
  | .dropped _ => false

end Departure

/-- A queue, and what those who use it were told so far. -/
structure History (R : Type) where
  queue : Queue R
  /-- The primitives that were taken with their lines, in the order of the requests. -/
  taken : List (Option Nat × Primitive R)
  /-- The entries that left, in the order in which they did. -/
  left : List (Departure R)

namespace History

/-- Nothing was asked for yet. -/
def start (capacity : Nat) : History R := ⟨.empty capacity, [], []⟩

/-- A batch was offered. -/
def offer (h : History R) (line : Option Nat) (primitives : List (Primitive R)) :
    Except QueueFull (Queue R) → History R
  | .ok q => { h with queue := q, taken := h.taken ++ primitives.map fun p => (line, p) }
  | .error _ => h

variable [Scalar R]

/-- What comes after a request. -/
def ask (h : History R) : Request R → History R
  | .push line p => h.offer line [p] (h.queue.push line p)
  | .pushAll line ps => h.offer line ps (h.queue.pushAll line ps)
  | .complete seq =>
    match h.queue.complete seq with
    | (true, q) => { h with queue := q, left := h.left ++ h.queue.front?.toList.map .retired }
    | (false, q) => { h with queue := q }
  | .clear =>
    let (dropped, q) := h.queue.clear
    { h with queue := q, left := h.left ++ dropped.map .dropped }
  | .setReady ready => { h with queue := h.queue.setReady ready }

/-- What comes after requests. -/
def run (h : History R) (requests : List (Request R)) : History R := requests.foldl ask h

/-! ## What every request keeps -/

omit [Scalar R]

/-- All entries that were ever queued, in the order of their pushes. -/
def entries (h : History R) : List (QueueEntry R) :=
  h.left.map Departure.entry ++ h.queue.entries

/-- The history accounts for everything that was queued. -/
structure Accounts (h : History R) (capacity : Nat) : Prop where
  capacity : h.queue.capacity = max capacity 1
  room : h.queue.length ≤ h.queue.capacity
  primitives : h.entries.map (fun e => (e.line, e.primitive)) = h.taken
  numbers : h.entries.map QueueEntry.seq = List.range h.queue.submitted
  completed : h.queue.completed = h.left.countP Departure.isRetired

theorem accounts_start (capacity : Nat) : (start capacity : History R).Accounts capacity :=
  ⟨rfl, Nat.zero_le _, rfl, rfl, rfl⟩

theorem map_seq_number (seq : Nat) (line : Option Nat) (ps : List (Primitive R)) :
    (number seq line ps).map QueueEntry.seq = List.range' seq ps.length := by
  induction ps generalizing seq with
  | nil => rfl
  | cons p ps ih => rw [number, List.map_cons, ih, List.length_cons, List.range'_succ]

theorem map_primitive_number (seq : Nat) (line : Option Nat) (ps : List (Primitive R)) :
    (number seq line ps).map (fun e => (e.line, e.primitive)) = ps.map fun p => (line, p) := by
  induction ps generalizing seq with
  | nil => rfl
  | cons p ps ih => rw [number, List.map_cons, ih, List.map_cons]

variable {h : History R} {capacity : Nat}

/-- A batch that fits is added whole, and one that does not changes nothing. -/
theorem Accounts.offer (accounts : h.Accounts capacity) (line : Option Nat)
    (ps : List (Primitive R)) :
    (h.offer line ps (h.queue.pushAll line ps)).Accounts capacity := by
  rcases pushed : h.queue.pushAll line ps with e | q
  · exact accounts
  · have fits : ps.length ≤ h.queue.free := by
      unfold pushAll at pushed
      split at pushed
      · cases pushed
      · next fits => exact Nat.le_of_not_lt fits
    obtain rfl := pushAll_eq_ok pushed
    have added : (h.offer line ps (.ok { h.queue with
        entries := h.queue.entries ++ number h.queue.submitted line ps
        submitted := h.queue.submitted + ps.length })).entries =
          h.entries ++ number h.queue.submitted line ps :=
      (List.append_assoc ..).symm
    refine ⟨accounts.capacity, ?_, ?_, ?_, accounts.completed⟩
    · have room := accounts.room
      show (h.queue.entries ++ number h.queue.submitted line ps).length ≤ h.queue.capacity
      rw [List.length_append, length_number]
      unfold free length at *
      omega
    · rw [added, List.map_append, accounts.primitives, map_primitive_number]
      rfl
    · rw [added, List.map_append, accounts.numbers, map_seq_number, List.range_eq_range',
        List.range_eq_range']
      have whole := List.range'_append_1 (s := 0) (m := h.queue.submitted) (n := ps.length)
      rwa [Nat.zero_add] at whole

variable [Scalar R]

/-- What is completed is the entry in front, if it has the number; all others stay. -/
theorem complete_cases (q : Queue R) (seq : Nat) :
    (q.complete seq = (false, q) ∧ ∀ e ∈ q.front?, e.seq ≠ seq) ∨
      ∃ e rest, q.entries = e :: rest ∧ e.seq = seq ∧
        q.complete seq = (true, { q with
          entries := rest
          completed := q.completed + 1
          lastCompleted := some e.primitive.text }) := by
  unfold complete
  split
  · next none => exact .inl ⟨rfl, fun e front => by rw [front?, none] at front; cases front⟩
  · next e rest entries =>
    split
    · next same => exact .inr ⟨e, rest, entries, same, rfl⟩
    · next other =>
      refine .inl ⟨rfl, fun f front => ?_⟩
      rw [front?, entries] at front
      obtain rfl := Option.some.inj front
      exact other

theorem Accounts.ask (accounts : h.Accounts capacity) (request : Request R) :
    (h.ask request).Accounts capacity := by
  cases request with
  | push line p => exact accounts.offer line [p]
  | pushAll line ps => exact accounts.offer line ps
  | setReady ready =>
    exact ⟨accounts.capacity, accounts.room, accounts.primitives, accounts.numbers,
      accounts.completed⟩
  | clear =>
    have same : (h.ask .clear).entries = h.entries := by
      show (h.left ++ h.queue.entries.map Departure.dropped).map Departure.entry ++ [] = _
      rw [List.append_nil, List.map_append, List.map_map]
      exact congrArg _ (List.map_id _)
    refine ⟨accounts.capacity, Nat.zero_le _, same ▸ accounts.primitives, same ▸ accounts.numbers,
      ?_⟩
    have dropped : (h.queue.entries.map Departure.dropped).countP Departure.isRetired = 0 := by
      rw [List.countP_map, List.countP_eq_zero]
      exact fun _ _ => nofun
    show h.queue.completed = (h.left ++ h.queue.entries.map Departure.dropped).countP Departure.isRetired
    rw [List.countP_append, dropped]
    exact accounts.completed
  | complete seq =>
    rw [History.ask]
    rcases complete_cases h.queue seq with ⟨same, -⟩ | ⟨e, rest, entries, -, completed⟩
    · rw [same]
      exact accounts
    · rw [completed]
      have front : h.queue.front?.toList.map Departure.retired = [.retired e] := by
        rw [front?, entries]
        rfl
      -- The entry in front leaves as the latest that left.
      have same : (h.left ++ [Departure.retired e]).map Departure.entry ++ rest = h.entries := by
        rw [History.entries, entries, List.map_append, List.append_assoc]
        rfl
      simp only [front]
      refine ⟨accounts.capacity, ?_, ?_, ?_, ?_⟩
      · have room := accounts.room
        rw [length, entries] at room
        exact Nat.le_of_succ_le room
      · exact (congrArg _ same).trans accounts.primitives
      · exact (congrArg _ same).trans accounts.numbers
      · show h.queue.completed + 1 = (h.left ++ [Departure.retired e]).countP Departure.isRetired
        rw [List.countP_append, accounts.completed]
        rfl

theorem Accounts.run (accounts : h.Accounts capacity) (requests : List (Request R)) :
    (h.run requests).Accounts capacity := by
  induction requests generalizing h with
  | nil => exact accounts
  | cons request requests ih => exact ih (accounts.ask request)

/-! ## What the account says -/

omit [Scalar R] in
theorem Accounts.numbered (accounts : h.Accounts capacity) : h.queue.Numbered := by
  have sorted : (h.entries.map QueueEntry.seq).Pairwise (· < ·) :=
    accounts.numbers ▸ List.pairwise_lt_range
  constructor
  · exact (List.pairwise_append.mp (List.pairwise_map.mp sorted)).2.1
  · intro e he
    refine List.mem_range.mp (accounts.numbers ▸ List.mem_map_of_mem ?_)
    exact List.mem_append_right _ he

omit [Scalar R] in
theorem Accounts.submitted (accounts : h.Accounts capacity) : h.queue.submitted =
    h.queue.completed + h.left.countP (!·.isRetired) + h.queue.length := by
  have total := congrArg List.length accounts.numbers
  rw [List.length_map, List.length_range, entries, List.length_append, List.length_map] at total
  have parts := h.left.length_eq_countP_add_countP Departure.isRetired
  have completed := accounts.completed
  simp only [length]
  simp only [Bool.not_eq_true] at parts
  have same : h.left.countP (fun d => decide (d.isRetired = false)) =
      h.left.countP (!·.isRetired) := by
    refine List.countP_congr fun d _ => ?_
    cases d.isRetired <;> simp
  omega

/-- A batch is taken whole behind everything that waits, or refused with nothing changed. -/
theorem pushAll_cases (h : History R) (line : Option Nat) (ps : List (Primitive R)) :
    match h.queue.pushAll line ps with
    | .error e => e = ⟨h.queue.free, ps.length⟩ ∧ h.queue.free < ps.length ∧
        h.ask (.pushAll line ps) = h
    | .ok q => ps.length ≤ h.queue.free ∧ (h.ask (.pushAll line ps)).queue = q ∧
        ∃ added, q.entries = h.queue.entries ++ added ∧
          added.map (fun e => (e.line, e.primitive)) = ps.map fun p => (line, p) := by
  rw [ask]
  rcases pushed : h.queue.pushAll line ps with e | q
  · unfold pushAll at pushed
    split at pushed
    · next full => exact ⟨(Except.error.inj pushed).symm, full, rfl⟩
    · cases pushed
  · unfold pushAll at pushed
    split at pushed
    · cases pushed
    · next fits =>
      obtain rfl := Except.ok.inj pushed
      exact ⟨Nat.le_of_not_lt fits, rfl, _, rfl, map_primitive_number ..⟩

/-- Whatever a queue is asked for, it never holds more than it has room for. Everything that was
taken has left in its turn or waits, each primitive once and in order; the numbers of the entries are
those from zero on, none twice; and a batch is taken whole or not at all. -/
theorem run_balanced (capacity : Nat) (requests : List (Request R)) :
    let h := (start capacity).run requests
    h.queue.free + h.queue.length = max capacity 1 ∧
      (h.queue.entries.Pairwise fun e f => e.seq < f.seq) ∧
      (∀ e ∈ h.queue.entries, e.seq < h.queue.submitted) ∧
      (h.left.map Departure.entry ++ h.queue.entries).map QueueEntry.seq =
        List.range h.queue.submitted ∧
      (h.left.map Departure.entry ++ h.queue.entries).map (fun e => (e.line, e.primitive)) =
        h.taken ∧
      h.queue.completed = h.left.countP Departure.isRetired ∧
      h.queue.submitted =
        h.queue.completed + h.left.countP (!·.isRetired) + h.queue.length ∧
      ∀ line ps, match h.queue.pushAll line ps with
        | .error e => e = ⟨h.queue.free, ps.length⟩ ∧ h.queue.free < ps.length ∧
            h.ask (.pushAll line ps) = h
        | .ok q => ps.length ≤ h.queue.free ∧ (h.ask (.pushAll line ps)).queue = q ∧
            ∃ added, q.entries = h.queue.entries ++ added ∧
              added.map (fun e => (e.line, e.primitive)) = ps.map fun p => (line, p) := by
  intro h
  have accounts : h.Accounts capacity := (accounts_start capacity).run requests
  have numbered := accounts.numbered
  refine ⟨?_, numbered.sorted, numbered.below, accounts.numbers, accounts.primitives,
    accounts.completed, accounts.submitted, h.pushAll_cases⟩
  rw [free, Nat.sub_add_cancel accounts.room, accounts.capacity]

end History

end Winding.Queue

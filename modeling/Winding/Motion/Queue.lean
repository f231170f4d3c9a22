import Winding.Motion.Primitive
import Winding.Text.Reported

/-!
# The motion queue

A bounded queue between planning and the controller. Entries are numbered when they are pushed,
leave only at the front, and a batch is taken whole or not at all (`Queue.pushAll`). An entry is
retired by its number, so a completion that comes late cannot remove another entry
(`Queue.complete`).
-/

namespace Winding

/-- A primitive that waits for the controller or is being carried out. -/
structure QueueEntry (R : Type) where
  /-- Position in the sequence of all pushes. -/
  seq : Nat
  /-- Index of the recipe line that the primitive belongs to; none for manual motion. -/
  line : Option Nat
  primitive : Primitive R
deriving BEq, Repr

/-- A batch that does not fit. -/
structure QueueFull where
  free : Nat
  needed : Nat
deriving DecidableEq, Repr

/-- The error in words. -/
def QueueFull.message (e : QueueFull) : String :=
  "Motion queue full (" ++ toString e.free ++ " free, " ++ toString e.needed ++ " needed)"

instance : Reported QueueFull where
  code _ := "QueueFull"
  message := QueueFull.message

/-- The entries in order, and the counts of what passed through. -/
structure Queue (R : Type) where
  entries : List (QueueEntry R)
  capacity : Nat
  /-- Entries pushed so far; the number of the next one. -/
  submitted : Nat
  /-- Entries retired so far. -/
  completed : Nat
  /-- The text of the entry retired last. -/
  lastCompleted : Option String
  /-- Whether the controller takes primitives at present. -/
  ready : Bool
deriving Repr

namespace Queue

variable {R : Type}

/-- An empty queue; it holds at least one entry. -/
def empty (capacity : Nat) : Queue R := ⟨[], max capacity 1, 0, 0, none, false⟩

/-- Entries waiting. -/
def length (q : Queue R) : Nat := q.entries.length

/-- Whether nothing waits. -/
def isEmpty (q : Queue R) : Bool := q.entries.isEmpty

/-- Entries that still fit. -/
def free (q : Queue R) : Nat := q.capacity - q.length

/-- Consecutive entries of one line, numbered from `seq`. -/
def number (seq : Nat) (line : Option Nat) : List (Primitive R) → List (QueueEntry R)
  | [] => []
  | p :: ps => ⟨seq, line, p⟩ :: number (seq + 1) line ps

/-- The queue with a batch at its end, taken whole or refused. -/
def pushAll (q : Queue R) (line : Option Nat) (primitives : List (Primitive R)) :
    Except QueueFull (Queue R) :=
  if q.free < primitives.length then .error ⟨q.free, primitives.length⟩
  else .ok { q with
    entries := q.entries ++ number q.submitted line primitives
    submitted := q.submitted + primitives.length }

/-- The queue with one more entry at its end. -/
def push (q : Queue R) (line : Option Nat) (primitive : Primitive R) :
    Except QueueFull (Queue R) :=
  q.pushAll line [primitive]

/-- The oldest entry. -/
def front? (q : Queue R) : Option (QueueEntry R) := q.entries.head?

/-- Retires the front entry if it has this number; says whether it did. -/
def complete [Scalar R] (q : Queue R) (seq : Nat) : Bool × Queue R :=
  match q.entries with
  | [] => (false, q)
  | e :: rest =>
    if e.seq = seq then
      (true, { q with
        entries := rest
        completed := q.completed + 1
        lastCompleted := some e.primitive.text })
    else (false, q)

/-- Drops all entries and returns them in order. -/
def clear (q : Queue R) : List (QueueEntry R) × Queue R :=
  (q.entries, { q with entries := [] })

/-- The line of the oldest entry that belongs to a recipe. -/
def oldestLine? (q : Queue R) : Option Nat := q.entries.findSome? QueueEntry.line

/-- The queue with the controller's readiness set. -/
def setReady (q : Queue R) (ready : Bool) : Queue R := { q with ready := ready }

theorem length_number (seq : Nat) (line : Option Nat) (ps : List (Primitive R)) :
    (number seq line ps).length = ps.length := by
  induction ps generalizing seq with
  | nil => rfl
  | cons p ps ih => simp [number, ih]

end Queue

end Winding

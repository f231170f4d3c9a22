/-!
# Production stages

A frame is wound layer by layer, in a fixed order.
-/

namespace Winding

/-- How far a frame is. -/
inductive Stage where
  | uninitialized | xLayer | vLayer | uLayer | gLayer | signOff | complete
deriving DecidableEq, Repr, Inhabited

namespace Stage

/-- All stages in order. -/
def all : List Stage := [.uninitialized, .xLayer, .vLayer, .uLayer, .gLayer, .signOff, .complete]

/-- The stage after this one; the last stage stays. -/
def next : Stage → Stage
  | .uninitialized => .xLayer
  | .xLayer => .vLayer
  | .vLayer => .uLayer
  | .uLayer => .gLayer
  | .gLayer => .signOff
  | .signOff | .complete => .complete

/-- The number that stands for a stage. -/
def number : Stage → Nat
  | .uninitialized => 0
  | .xLayer => 1
  | .vLayer => 2
  | .uLayer => 3
  | .gLayer => 4
  | .signOff => 5
  | .complete => 6

/-- The stage with a number. -/
def ofNumber? (n : Nat) : Option Stage := all[n]?

theorem ofNumber?_number (s : Stage) : ofNumber? s.number = some s := by cases s <;> rfl

/-- The name of a stage. -/
def text : Stage → String
  | .uninitialized => "uninitialized"
  | .xLayer => "X layer"
  | .vLayer => "V layer"
  | .uLayer => "U layer"
  | .gLayer => "G layer"
  | .signOff => "sign-off"
  | .complete => "complete"

end Stage

end Winding

/-!
# Sides of the frame

The latch and the pulling head stop at four discrete positions. The two partial ones hold the
mechanism part of the way through the frame and belong to the face they are named after.
-/

namespace Winding

/-- A stop of the latch or of the head. -/
inductive Side where
  | front | partialFront | partialBack | back
deriving DecidableEq, Repr, Inhabited

namespace Side

/-- All sides from front to back. -/
def all : List Side := [.front, .partialFront, .partialBack, .back]

/-- The number that stands for a side in recipes and on the controller. -/
def code : Side → Nat
  | .front => 0
  | .partialFront => 1
  | .partialBack => 2
  | .back => 3

/-- The side with a number. -/
def ofCode? : Int → Option Side
  | 0 => some .front
  | 1 => some .partialFront
  | 2 => some .partialBack
  | 3 => some .back
  | _ => none

theorem ofCode?_code (s : Side) : ofCode? s.code = some s := by cases s <;> rfl

/-- Whether a side belongs to the front face. -/
def onFront : Side → Bool
  | .front | .partialFront => true
  | .partialBack | .back => false

/-- Whether moving between two sides takes the wire through the frame. -/
def crosses (s t : Side) : Bool := s.onFront != t.onFront

/-- The name of a side. -/
def text : Side → String
  | .front => "front"
  | .partialFront => "partial-front"
  | .partialBack => "partial-back"
  | .back => "back"

/-- The name of a side in status documents. -/
def key : Side → String
  | .front => "front"
  | .partialFront => "partial_front"
  | .partialBack => "partial_back"
  | .back => "back"

/-- The side that a word names, in any mixture of cases: a name, a first letter or a number. -/
def ofText? (s : String) : Option Side :=
  let word := String.ofList (s.toList.map Char.toLower)
  if word ∈ ["front", "f", "0"] then some .front
  else if word ∈ ["partial-front", "partial_front", "1"] then some .partialFront
  else if word ∈ ["partial-back", "partial_back", "2"] then some .partialBack
  else if word ∈ ["back", "b", "3"] then some .back
  else none

end Side

end Winding

import Winding.Number.Decimal
import Winding.Text.Blank

/-!
# Pins

A pin is addressed by its face and an ordinal from 1, written `F123` or `B456`. Pins are ordered by
face, then by ordinal.
-/

namespace Winding

/-- A face of the frame. -/
inductive Face where
  | front | back
deriving DecidableEq, Repr, Inhabited

/-- The letter of a face. -/
def Face.letter : Face → Char
  | .front => 'F'
  | .back => 'B'

/-- A pin of a layer. -/
structure Pin where
  face : Face
  ordinal : Nat
deriving DecidableEq, Repr, Inhabited

namespace Pin

/-- A pin of the front face. -/
def front (ordinal : Nat) : Pin := ⟨.front, ordinal⟩

/-- A pin of the back face. -/
def back (ordinal : Nat) : Pin := ⟨.back, ordinal⟩

/-- Ordinals are kept in 32 bits. -/
def ordinalLimit : Nat := UInt32.size

/-- The written form of a pin. -/
def text (p : Pin) : String := String.ofList (p.face.letter :: digitsOf p.ordinal)

/-- The face that a letter stands for, in either case. -/
def faceOf? (c : Char) : Option Face :=
  if c = 'F' || c = 'f' then some .front
  else if c = 'B' || c = 'b' then some .back
  else none

/-- The pin that a text writes: a letter and an ordinal from 1, with blanks around. -/
def ofText? (s : String) : Option Pin :=
  match trim s.toList with
  | [] => none
  | c :: rest => do
    let face ← faceOf? c
    let ordinal ← natBelow? ordinalLimit rest
    if ordinal = 0 then none else some ⟨face, ordinal⟩

/-- Whether one pin comes before another: front before back, then by ordinal. -/
def before (p q : Pin) : Bool :=
  match p.face, q.face with
  | .front, .back => true
  | .back, .front => false
  | _, _ => decide (p.ordinal < q.ordinal)

end Pin

end Winding

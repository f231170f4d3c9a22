import Winding.Calibration.Pin
import Winding.Geometry.Side
import Winding.Geometry.Transfer

/-!
# Commands and lines of a recipe

What a statement of a recipe asks for, and its canonical text. The feed is written right after the
line number, where it cannot be taken for a front pin (`Line.text`).
-/

namespace Winding.Gcode

/-- Axis targets of a line; an axis that is not given keeps its value. -/
structure Target (R : Type) where
  x : Option R
  y : Option R
  z : Option R
deriving BEq, Repr, Inhabited

/-- Whether no axis is given. -/
def Target.isEmpty {R : Type} (t : Target R) : Bool := t.x.isNone && t.y.isNone && t.z.isNone

/-- One command of a line. -/
inductive Command (R : Type) where
  | move (target : Target R) (feed : Option R)
  | seek (edge : TransferEdge)
  | latch (side : Side)
  | head (side : Side)
  /-- To a front pin, a back pin or the midpoint of both. -/
  | pin (front back : Option Nat) (dx dy : R)
  | clip
  | delay (ms : Nat)
  | pause
deriving BEq, Repr

/-- One statement of a recipe. -/
structure Line (R : Type) where
  /-- The given number, or the previous one plus one. -/
  number : Nat
  feed : Option R
  commands : List (Command R)
  /-- Position of the statement among the lines of its text, from 1. -/
  source : Nat
deriving BEq, Repr

variable {R : Type}

/-- The pins that a command needs. -/
def Command.pins : Command R → List Pin
  | .pin front back _ _ => (front.map Pin.front).toList ++ (back.map Pin.back).toList
  | _ => []

/-- The pins that a line needs. -/
def Line.pins (l : Line R) : List Pin := l.commands.flatMap Command.pins

section Text

variable [Scalar R]

/-- A word of a letter and a number. -/
def word (letter : String) (value : R) : String := " " ++ letter ++ Scalar.text value

/-- A word of a letter and a whole number. -/
def natWord (letter : String) (n : Nat) : String := " " ++ letter ++ toString n

/-- A word for a value that is given. -/
def optWord (letter : String) (value : Option R) : String := (value.map (word letter)).getD ""

/-- The canonical text of a command. -/
def Command.text : Command R → String
  | .move t _ => "G1" ++ optWord "X" t.x ++ optWord "Y" t.y ++ optWord "Z" t.z
  | .seek edge => "G102" ++ natWord "P" edge.mask
  | .latch side => "G100" ++ natWord "P" side.code
  | .head side => "G106" ++ natWord "P" side.code
  | .pin front back dx dy =>
    "G108" ++ (front.map (natWord "F")).getD "" ++ (back.map (natWord "B")).getD "" ++
      offset "I" dx ++ offset "J" dy
  | .clip => "G104"
  | .delay ms => "G4" ++ natWord "P" ms
  | .pause => "M0"
where
  offset (letter : String) (value : R) : String :=
    if value == Scalar.zero then "" else word letter value

/-- The canonical text of a line. -/
def Line.text (l : Line R) : String :=
  "N" ++ toString l.number ++ optWord "F" l.feed ++
    String.join (l.commands.map fun c => " " ++ c.text)

end Text

end Winding.Gcode

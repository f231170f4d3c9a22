import Winding.Gcode.Reader
import Winding.Text.Reported

/-!
# Sealed recipes

A recipe is a program with two framing comments: one that names its layer before the first
statement, and a last line with the digest of every byte before it. The digest is checked before
any line is read (`Recipe.read`), and `sealText` appends it. The digest function is a parameter.
-/

namespace Winding

/-- What is wrong with a recipe text. -/
inductive RecipeFault (R : Type) where
  | missingHash
  | hashMismatch (expected actual : String)
  | missingLayer
  | unreadable (error : Gcode.ReadError R)
deriving Repr

/-- The error in words. -/
def RecipeFault.message {R : Type} [Scalar R] : RecipeFault R → String
  | .missingHash => "Recipe has no (SHA256 ...) trailer"
  | .hashMismatch expected actual =>
    "Recipe hash mismatch: file says " ++ expected ++ ", content is " ++ actual
  | .missingLayer => "Recipe does not name its layer"
  | .unreadable e => "Parse error: " ++ e.message

instance {R : Type} [Scalar R] : Reported (RecipeFault R) where
  code
    | .missingHash => "MissingHash"
    | .hashMismatch _ _ => "HashMismatch"
    | .missingLayer => "MissingLayer"
    | .unreadable e => "Parse." ++ Reported.code e
  message := RecipeFault.message

/-- A checked recipe. -/
structure Recipe (R : Type) where
  layer : String
  lines : List (Gcode.Line R)
  hash : String
deriving Repr

namespace Recipe

/-- How the last line starts. -/
def hashStart : List Char := "(SHA256 ".toList

/-- How the line that names the layer starts. -/
def layerStart : List Char := "(LAYER ".toList

/-- What stands between a given start and a closing parenthesis, trimmed. -/
def framed? (start line : List Char) : Option (List Char) :=
  ((after? start line).bind (beforeLast? ')')).map trim

/-- Whether a character is a hexadecimal digit. -/
def isHexDigit (c : Char) : Bool :=
  c.isDigit || ('a' ≤ c && c ≤ 'f') || ('A' ≤ c && c ≤ 'F')

/-- Splits a text without blanks at its end before its last line. -/
def splitLastLine (text : List Char) : List Char × List Char :=
  let last := (text.reverse.takeWhile (· ≠ '\n')).reverse
  (text.take (text.length - last.length), last)

/-- The body of a sealed text and the digest that its last line gives. -/
def splitTrailer? (text : List Char) : Option (List Char × List Char) :=
  let (body, last) := splitLastLine (trimEnd text)
  (framed? hashStart (trim last)).bind fun hash =>
    if hash.length = 64 && hash.all isHexDigit then some (body, hash) else none

/-- The layer that the comments before the first statement name. -/
def findLayer? : List (List Char) → Option (List Char)
  | [] => none
  | line :: lines =>
    match trim line with
    | [] => findLayer? lines
    | c :: cs =>
      match framed? layerStart (c :: cs) with
      | some name => if name.isEmpty then none else some name
      | none => if c = '(' || c = ';' then findLayer? lines else none

variable {R : Type} [Scalar R]

/-- Checks and reads a sealed text. -/
def read (digest : String → String) (text : String) : Except (RecipeFault R) (Recipe R) :=
  match splitTrailer? text.toList with
  | none => .error .missingHash
  | some (body, expected) =>
    let actual := digest (String.ofList body)
    if lowerAscii actual.toList ≠ lowerAscii expected then
      .error (.hashMismatch (String.ofList expected) actual)
    else match findLayer? (linesOf body) with
      | none => .error .missingLayer
      | some layer =>
        match Gcode.readLines none 1 (linesOf body) with
        | .error e => .error (.unreadable e)
        | .ok lines => .ok ⟨String.ofList layer, lines, actual⟩

/-- The body with a newline at its end, unless it is empty. -/
def closed (body : String) : String :=
  if body.isEmpty || body.toList.getLast? = some '\n' then body else body.push '\n'

/-- The text with its digest in a last line. -/
def sealText (digest : String → String) (body : String) : String :=
  closed body ++ String.ofList hashStart ++ digest (closed body) ++ ")\n"

/-- The pins with one more, in order and without repeats. -/
def insertPin (p : Pin) : List Pin → List Pin
  | [] => [p]
  | q :: qs => if p = q then q :: qs else if p.before q then p :: q :: qs else q :: insertPin p qs

/-- The pins that a recipe needs, in order and without repeats. -/
def pins (r : Recipe R) : List Pin :=
  (r.lines.flatMap Gcode.Line.pins).foldl (fun ps p => insertPin p ps) []

end Recipe

end Winding

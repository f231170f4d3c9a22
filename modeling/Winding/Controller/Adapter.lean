import Winding.Number.Scalar
import Winding.Text.Reported

/-!
# Access to the controller

An `Adapter` is anything that can be asked to read and write tags. It may answer, refuse or stay
silent; whoever asks gives up on a silent one after a time of their own.
-/

namespace Winding

/-- The value of a tag. -/
inductive TagValue where
  | flag (value : Bool)
  | word (value : Int)
  | analog (value : Float32)

namespace TagValue

/-- The value in words. -/
def text : TagValue → String
  | .flag b => toString b
  | .word n => toString n
  | .analog x => (BinaryNumber.ofFloat32 x).text .single

/-- The value as a truth value. -/
def flag? : TagValue → Option Bool
  | .flag b => some b
  | .word n => some (n ≠ 0)
  | .analog _ => none

/-- The value as a whole number. -/
def word? : TagValue → Option Int
  | .word n => some n
  | .flag b => some (if b then 1 else 0)
  | .analog _ => none

/-- The 32-bit number nearest to a whole one. -/
def single (n : Int) : Float32 :=
  (BinaryNumber.ofDecimal .single ⟨decide (n < 0), n.natAbs, 0⟩).toFloat32

/-- The value as a number of 32 bits. -/
def analog? : TagValue → Option Float32
  | .analog x => some x
  | .word n => some (single n)
  | .flag _ => none

/-- The value as a number. -/
def number? {R : Type} [Scalar R] : TagValue → Option R
  | .analog x => some (Scalar.ofSingle x)
  | .word n => some (Scalar.ofDecimal ⟨decide (n < 0), n.natAbs, 0⟩)
  | .flag _ => none

end TagValue

/-- Why the controller did not do what it was asked for. -/
inductive ControllerError where
  | unresponsive (timeoutMillis : Nat)
  | incomplete (primitive : String) (timeoutMillis : Nat)
  | unknownTag (tag : String)
  | typeMismatch (tag expected : String) (found : TagValue)
  | readOnly (tag : String)
  | notFunctional

/-- The error in words. -/
def ControllerError.message : ControllerError → String
  | .unresponsive ms => "PLC did not answer within " ++ toString ms ++ " ms"
  | .incomplete primitive ms =>
    "PLC did not complete " ++ primitive ++ " within " ++ toString ms ++ " ms"
  | .unknownTag tag => "Unknown PLC tag '" ++ tag ++ "'"
  | .typeMismatch tag expected found =>
    "Tag '" ++ tag ++ "' holds " ++ found.text ++ ", expected " ++ expected
  | .readOnly tag => "Tag '" ++ tag ++ "' is read-only"
  | .notFunctional => "PLC is not functional"

instance : Reported ControllerError where
  code
    | .unresponsive _ => "Unresponsive"
    | .incomplete _ _ => "CompletionTimeout"
    | .unknownTag _ => "UnknownTag"
    | .typeMismatch _ _ _ => "TypeMismatch"
    | .readOnly _ => "ReadOnly"
    | .notFunctional => "NotFunctional"
  message := ControllerError.message

/-- What keeps a request from being answered. -/
inductive NoAnswer where
  | refused (error : ControllerError)
  | silence

/-- A request's answer, or why there is none. -/
abbrev Answer (α : Type) := Except NoAnswer α

/-- Access to a controller in a state of type `σ`. Every request may change the state. -/
class Adapter (σ : Type) where
  /-- Whether the connection is up and the controller runs. -/
  functional : σ → Bool
  read : σ → String → Answer TagValue × σ
  write : σ → String → TagValue → Answer Unit × σ

/-- The answer for someone who waits for a time. -/
def Answer.within {α : Type} (timeoutMillis : Nat) : Answer α → Except ControllerError α
  | .ok a => .ok a
  | .error (.refused e) => .error e
  | .error .silence => .error (.unresponsive timeoutMillis)

end Winding

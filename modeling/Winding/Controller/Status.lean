import Winding.Controller.Tag

/-!
# The status of the controller

The latest view of the controller, as it is published to everything else. A status is healthy
exactly when it has no fault to describe (`ControllerStatus.isHealthy_iff`).
-/

namespace Winding

/-- The latest view of the controller. -/
structure ControllerStatus (R : Type) where
  functional : Bool
  responsive : Bool
  ready : Bool
  state : ControllerState
  errorCode : Int
  switches : Int
  position : Location R
  velocity : List R
  axisFaults : List Axis
  /-- Why a primitive that was submitted never completed. -/
  stalled : Option String
  lastError : Option String
deriving Repr

namespace ControllerStatus

variable {R : Type}

/-- The status before the first poll. -/
def unknown [Scalar R] : ControllerStatus R :=
  ⟨false, false, false, .init, 0, 0, .origin, Axis.all.map fun _ => Scalar.zero, [], none, none⟩

/-- Whether the controller reports a fault. -/
def isFault (s : ControllerStatus R) : Bool :=
  s.state == .error || s.errorCode != 0 || !s.axisFaults.isEmpty || s.stalled.isSome

/-- Whether the controller can take the next primitive once the present one is done. -/
def isHealthy (s : ControllerStatus R) : Bool := s.functional && s.responsive && !s.isFault

/-- A fault that the controller reports, in words. -/
def faultText (s : ControllerStatus R) : String :=
  let text := "PLC fault, state " ++ s.state.text ++ ", error code " ++ toString s.errorCode
  if s.axisFaults.isEmpty then text
  else text ++ ", module fault on " ++ String.intercalate "/" (s.axisFaults.map Axis.letter)

/-- The fault in words, if there is one. -/
def fault? (s : ControllerStatus R) : Option String :=
  if !s.responsive then some (s.lastError.getD "PLC unresponsive")
  else if !s.functional then some "PLC not functional"
  else match s.stalled with
    | some reason => some reason
    | none => if s.isFault then some s.faultText else none

theorem isHealthy_iff (s : ControllerStatus R) : s.isHealthy = true ↔ s.fault? = none := by
  unfold isHealthy fault? isFault
  cases s.responsive <;> cases s.functional <;> cases s.stalled <;> simp

end ControllerStatus

end Winding

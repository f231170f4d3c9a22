import Winding.Motion.Primitive

/-!
# Default and greatest rates

A move runs at the feed of its line, or at the default, capped at the maximum (`Rates.limits`).
-/

namespace Winding

/-- What a rate limits. -/
inductive Quantity where
  | velocity | acceleration | deceleration
deriving DecidableEq, Repr

/-- The name of a quantity. -/
def Quantity.text : Quantity → String
  | .velocity => "velocity"
  | .acceleration => "acceleration"
  | .deceleration => "deceleration"

/-- A default and a maximum for each quantity. -/
structure Rates (R : Type) where
  velocity : R
  maxVelocity : R
  acceleration : R
  maxAcceleration : R
  deceleration : R
  maxDeceleration : R
deriving BEq, Repr

/-- What is wrong with rates. -/
inductive RatesFault (R : Type) where
  | notPositive (quantity : Quantity)
  | aboveMaximum (quantity : Quantity) (default maximum : R)
deriving Repr

variable {R : Type} [Scalar R]

/-- The fault in words. -/
def RatesFault.message : RatesFault R → String
  | .notPositive q => "motion " ++ q.text ++ " limits must be positive"
  | .aboveMaximum q default maximum =>
    "default " ++ q.text ++ " " ++ Scalar.text default ++ " exceeds maximum " ++
      Scalar.text maximum

namespace Rates

/-- Whether a rate is finite and above zero. -/
def usable (v : R) : Bool := Scalar.isFinite v && Scalar.positive v

/-- Accepts a default and a maximum that are usable and in order. -/
def check (quantity : Quantity) (default maximum : R) : Except (RatesFault R) Unit :=
  if !(usable default && usable maximum) then .error (.notPositive quantity)
  else if Scalar.lt maximum default then .error (.aboveMaximum quantity default maximum)
  else .ok ()

/-- Accepts rates whose three pairs are in order. -/
def validate (r : Rates R) : Except (RatesFault R) Unit := do
  check .velocity r.velocity r.maxVelocity
  check .acceleration r.acceleration r.maxAcceleration
  check .deceleration r.deceleration r.maxDeceleration

/-- The limits of a move with a given feed. -/
def limits (r : Rates R) (feed : Option R) : Limits R :=
  ⟨Scalar.min (feed.getD r.velocity) r.maxVelocity,
    Scalar.min r.acceleration r.maxAcceleration,
    Scalar.min r.deceleration r.maxDeceleration⟩

/-- The rates without configuration. -/
def standard : Rates R :=
  ⟨Scalar.ofNat 300, Scalar.ofNat 1000, Scalar.ofNat 500, Scalar.ofNat 2000, Scalar.ofNat 500,
    Scalar.ofNat 2000⟩

end Rates

end Winding

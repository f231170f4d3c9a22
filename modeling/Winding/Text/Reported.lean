/-!
# Reported errors

Errors are values; what people and logs see of them is a code, which names the kind of error, and a
message. An error inside another has its code after a point.
-/

namespace Winding

/-- Errors with a code and a message. -/
class Reported (ε : Type) where
  /-- The kind of error. -/
  code : ε → String
  /-- The error in words. -/
  message : ε → String

end Winding

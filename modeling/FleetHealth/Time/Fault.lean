/-!
What can be wrong with the text of a time, and how it is said.
-/

namespace FleetHealth.Time

/-- Why a text is not a time. -/
inductive Fault
  /-- The text ends where more is needed. -/
  | tooShort
  /-- A character stands where it cannot. -/
  | invalid
  /-- A part is greater than any that is allowed in its place. -/
  | outOfRange
  /-- Universal time at that local reading lies outside the supported years. -/
  | impossible
  /-- Something follows the time. -/
  | tooLong
  deriving DecidableEq, Repr

/-- The wording of a fault. -/
def Fault.message : Fault → String
  | .tooShort => "premature end of input"
  | .invalid => "input contains invalid characters"
  | .outOfRange => "input is out of range"
  | .impossible => "no possible date and time matching input"
  | .tooLong => "trailing input"

end FleetHealth.Time

/-!
Members of a fleet and their conditions.

A member reports conditions about itself. A condition tells whether it holds and why, and two of the
reasons mean that the member is failing.
-/

namespace FleetHealth

/-- Whether a condition holds, as far as is known. -/
inductive Truth
  | yes
  | no
  | unknown
  deriving DecidableEq, Repr, Inhabited

namespace Truth

/-- All answers, in the order in which they are listed. -/
def all : List Truth := [yes, no, unknown]

/-- The written name of an answer. -/
def name : Truth → String
  | yes => "True"
  | no => "False"
  | unknown => "Unknown"

/-- The answer with a written name. -/
def ofName? (s : String) : Option Truth :=
  all.find? (·.name == s)

/-- A definite answer. -/
def ofBool : Bool → Truth
  | true => yes
  | false => no

/-- The answer when none is given. -/
def default : Truth := unknown

theorem ofName?_name (t : Truth) : ofName? t.name = some t := by
  cases t <;> decide

end Truth

/-- Why a condition is as it is. -/
inductive Reason
  | sourceFailed
  | applyFailed
  | applyPending
  | applySuccessful
  | unknown
  deriving DecidableEq, Repr

namespace Reason

/-- The reasons of a failing member. -/
def failures : List Reason := [sourceFailed, applyFailed]

/-- Whether a condition with this reason is failing. -/
def isFailure (r : Reason) : Bool :=
  failures.contains r

/-- All reasons with a meaning of their own. -/
def known : List Reason := [sourceFailed, applyFailed, applyPending, applySuccessful]

/-- The written name of a reason. -/
def name : Reason → String
  | sourceFailed => "SourceFailed"
  | applyFailed => "ApplyFailed"
  | applyPending => "ApplyPending"
  | applySuccessful => "ApplySuccessful"
  | unknown => "Unknown"

/-- The reason with a written name; a name without a meaning is an unknown reason. -/
def ofName (s : String) : Reason :=
  (known.find? (·.name == s)).getD unknown

theorem ofName_name (r : Reason) : ofName r.name = r := by
  cases r <;> decide

end Reason

/-- Something that a member reports about itself. -/
structure Condition where
  kind : String
  status : Truth
  reason : Reason
  message : String
  deriving DecidableEq, Repr

namespace Condition

/-- The condition that tells whether a member is installed. -/
def installed (status : Truth) (reason : Reason) : Condition :=
  ⟨"Installed", status, reason, ""⟩

/-- The condition with another message. -/
def withMessage (c : Condition) (message : String) : Condition :=
  { c with message }

/-- Whether the condition is failing: its reason alone decides. -/
def isFailing (c : Condition) : Bool :=
  c.reason.isFailure

end Condition

/-- All that a member reports. -/
structure Member.Status where
  conditions : List Condition
  deriving DecidableEq, Repr

/-- A member of a fleet. -/
structure Member where
  name : String
  status : Member.Status
  deriving DecidableEq, Repr

/-- The conditions of a member that are failing, in order. -/
def Member.failing (m : Member) : List Condition :=
  m.status.conditions.filter Condition.isFailing

end FleetHealth

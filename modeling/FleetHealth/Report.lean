import FleetHealth.Member

/-!
Reports of failing members.

A report has one entry for each failing condition, in the order of the members and, within a member,
of its conditions. `Report.message` folds the entries into one text.
-/

namespace FleetHealth

/-- The failing conditions found in one look at a fleet: entry by entry, the member that has the
condition and what is said of it. -/
structure Report where
  failing : List Member
  errors : List String
  deriving DecidableEq, Repr

namespace Report

/-- What is said of a failing condition. -/
def describe (m : Member) (c : Condition) : String :=
  m.name ++ " is failing: \"" ++ c.reason.name ++ "\""

/-- Each failing condition with the member that has it. -/
def failures (ms : List Member) : List (Member × Condition) :=
  ms.flatMap fun m => m.failing.map fun c => (m, c)

/-- The report on a list of members; there is none when no condition is failing. -/
def of? (ms : List Member) : Option Report :=
  match failures ms with
  | [] => none
  | found => some ⟨found.map Prod.fst, found.map fun (m, c) => describe m c⟩

/-- A single entry as it is, and several between brackets with commas. -/
def fold : List String → String
  | [e] => e
  | es => "[" ++ ", ".intercalate es ++ "]"

/-- All that the report says, as one text. -/
def message (r : Report) : String :=
  fold r.errors

end Report

end FleetHealth

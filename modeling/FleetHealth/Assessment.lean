import FleetHealth.Draft
import FleetHealth.Report

/-!
What a listing of the fleet says about it.

An `Assessment` is made from the answer to a listing: the fleet is empty, failing or healthy, or,
when the listing failed, nothing is known yet. `Assessment.calls` are the calls on the draft of the
composite status; what they say depends on nothing but the assessment.
-/

namespace FleetHealth

open FleetHealth.Time (Instant)

/-- The answer to a listing of the members: the members, or the text of an error. -/
abbrev Listing := Except String (List Member)

/-- What is known about a fleet. -/
inductive Assessment
  /-- The members could not be listed; the text says why. -/
  | evaluating (why : String)
  | empty
  | failing (report : Report)
  | healthy (members : Nat)
  deriving DecidableEq, Repr

/-- The outcome of a look at a fleet. -/
inductive Verdict
  | noMembers
  | healthy (members : Nat)
  | failing (names : List String) (message : String)
  deriving DecidableEq, Repr

namespace Assessment

/-- The reason of an available fleet without members. -/
def noMembersReason : String := "No POs Found"

/-- The reason of a fleet that is not available. -/
def failingReason : String := "PO In An Error State"

/-- The reason of an available fleet of healthy members. -/
def healthyReason : String := "POs Are Healthy"

/-- What is said of a fleet of healthy members. -/
def healthyMessage : String := "All POs in a successful state"

/-- The assessment of an answer to a listing. -/
def ofListing : Listing → Assessment
  | .error why => .evaluating why
  | .ok [] => .empty
  | .ok ms =>
    match Report.of? ms with
    | some report => .failing report
    | none => .healthy ms.length

/-- What is said before anything is known. -/
def opening : List Draft.Call :=
  [.progressing true "", .degraded false, .available false "" ""]

/-- What an assessment adds. -/
def calls : Assessment → List Draft.Call
  | .evaluating _ => []
  | .empty => [.available true noMembersReason ""]
  | .failing report => [.degraded true, .available false failingReason report.message]
  | .healthy _ => [.available true healthyReason healthyMessage]

/-- The composite status that follows from an assessment, the composite before it and the time. -/
def composite (a : Assessment) (previous : Option Composite) (now : Instant) : Composite :=
  ((opening ++ a.calls).foldl Draft.apply (.new previous now)).finish

/-- The outcome, or the text of the error when the members could not be listed. -/
def verdict : Assessment → Except String Verdict
  | .evaluating why => .error why
  | .empty => .ok .noMembers
  | .failing report => .ok (.failing (report.failing.map Member.name) report.message)
  | .healthy n => .ok (.healthy n)

end Assessment

end FleetHealth

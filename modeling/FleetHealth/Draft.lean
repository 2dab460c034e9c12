import FleetHealth.Composite

/-!
Drafts of composite statuses.

A draft collects what is to be said in each slot; of several calls for one slot the last counts.
`Draft.finish` adds the times: a slot whose status is that of the previous composite keeps the
time it has there, any other takes the time of the draft.
-/

namespace FleetHealth

open FleetHealth.Time (Instant)

/-- What a slot is to say. -/
structure Entry where
  status : Truth
  reason : String
  message : String
  deriving DecidableEq, Repr

namespace Entry

/-- A slot that nothing has been said about. -/
def unset : Entry := ⟨.default, "", ""⟩

/-- The slot that says this, given the slot before it and the time. -/
def resolve (e : Entry) (previous : Option Slot) (now : Instant) : Slot :=
  let since :=
    match previous with
    | some p => if p.status = e.status then p.since else now
    | none => now
  ⟨e.status, e.reason, e.message, since⟩

end Entry

/-- A composite status in the making. -/
structure Draft where
  previous : Option Composite
  now : Instant
  progressing : Entry
  degraded : Entry
  available : Entry
  deriving DecidableEq

namespace Draft

/-- Begins a draft in which nothing is said. -/
def new (previous : Option Composite) (now : Instant) : Draft :=
  ⟨previous, now, .unset, .unset, .unset⟩

/-- Says whether the fleet is progressing, and why. -/
def setProgressing (d : Draft) (value : Bool) (reason : String) : Draft :=
  { d with progressing := ⟨.ofBool value, reason, ""⟩ }

/-- Says whether the fleet is degraded. -/
def setDegraded (d : Draft) (value : Bool) : Draft :=
  { d with degraded := ⟨.ofBool value, "", ""⟩ }

/-- Says whether the fleet is available, why, and in which words. -/
def setAvailable (d : Draft) (value : Bool) (reason message : String) : Draft :=
  { d with available := ⟨.ofBool value, reason, message⟩ }

/-- The composite status that says what the draft says. -/
def finish (d : Draft) : Composite where
  progressing := d.progressing.resolve (d.previous.map (·.progressing)) d.now
  degraded := d.degraded.resolve (d.previous.map (·.degraded)) d.now
  available := d.available.resolve (d.previous.map (·.available)) d.now

/-! ### Calls as values -/

/-- One call on a draft. -/
inductive Call
  | progressing (value : Bool) (reason : String)
  | degraded (value : Bool)
  | available (value : Bool) (reason message : String)
  deriving DecidableEq, Repr

/-- The draft after a call. -/
def apply (d : Draft) : Call → Draft
  | .progressing value reason => d.setProgressing value reason
  | .degraded value => d.setDegraded value
  | .available value reason message => d.setAvailable value reason message

/-- The drafts before and after each of a list of calls. -/
def history (d : Draft) : List Call → List Draft
  | [] => [d]
  | c :: cs => d :: (d.apply c).history cs

end Draft

end FleetHealth

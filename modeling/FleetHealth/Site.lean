import FleetHealth.Assessment
import FleetHealth.Roster
import FleetHealth.Store

/-!
The site: what the passes share.

A site is a store, a roster, what ails the listing of the roster, and a clock. All of it may change
between any two calls of a pass.
-/

namespace FleetHealth

open FleetHealth.Time (Instant)

/-- The surroundings of the passes. The members cannot be listed while there is an `outage`. -/
structure Site where
  store : Store
  roster : Roster
  outage : Option String
  clock : Instant
  deriving DecidableEq

namespace Site

/-- A site at the epoch, with nothing wrong. -/
def new (store : Store) (roster : Roster) : Site :=
  ⟨store, roster, none, .epoch⟩

/-- The answer to a listing of the members. -/
def list (s : Site) : Listing :=
  match s.outage with
  | some text => .error text
  | none => .ok s.roster.members

end Site

end FleetHealth

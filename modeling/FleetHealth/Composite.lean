import FleetHealth.Member
import FleetHealth.Time.Instant

/-!
The composite status of a fleet, and the targets that hold it.

A `Composite` has three slots: whether the fleet is progressing, degraded and available. Each slot
knows since when it has had its status. A `Target` is a named, versioned place for a composite.
-/

namespace FleetHealth

open FleetHealth.Time (Instant)

/-- One of the three parts of a composite status. -/
structure Slot where
  status : Truth
  reason : String
  message : String
  since : Instant
  deriving DecidableEq

/-- Whether the slot is known to hold. -/
def Slot.holds (s : Slot) : Bool :=
  s.status == .yes

/-- The composite status of a fleet. -/
structure Composite where
  progressing : Slot
  degraded : Slot
  available : Slot
  deriving DecidableEq

/-- A stored composite status; none has been written yet when `status` is absent. -/
structure Target where
  name : String
  version : UInt64
  status : Option Composite
  deriving DecidableEq

/-- A target before the first write. -/
def Target.new (name : String) : Target :=
  ⟨name, 0, none⟩

/-- Whether writing a status over the target would change nothing. -/
def Target.carries (t : Target) (status : Composite) : Bool :=
  t.status == some status

end FleetHealth

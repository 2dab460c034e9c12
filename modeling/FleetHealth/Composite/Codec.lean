import FleetHealth.Composite
import FleetHealth.Member.Codec

/-!
The JSON form of composite statuses and targets.
-/

namespace FleetHealth

open FleetHealth.Json
open FleetHealth.Time (Instant)

/-- The texts may be left out, the status and its time may not. -/
def Slot.fields : Fields [Truth, String, String, Instant] :=
  .cons (.required "status" Truth.codec) <|
  .cons (.optional "reason" .text "") <|
  .cons (.optional "message" .text "") <|
  .cons (.required "lastTransitionTime" .time) .nil

def Slot.codec : Codec Slot :=
  .record "CompositeCondition" fields
    (fun s => (s.status, s.reason, s.message, s.since, ()))
    (fun (status, reason, message, since, ()) => ⟨status, reason, message, since⟩)

/-- All three slots must be there. -/
def Composite.fields : Fields [Slot, Slot, Slot] :=
  .cons (.required "progressing" Slot.codec) <|
  .cons (.required "degraded" Slot.codec) <|
  .cons (.required "available" Slot.codec) .nil

def Composite.codec : Codec Composite :=
  .record "CompositeStatus" fields
    (fun c => (c.progressing, c.degraded, c.available, ()))
    (fun (progressing, degraded, available, ()) => ⟨progressing, degraded, available⟩)

/-- The status may be left out or null. -/
def Target.fields : Fields [String, UInt64, Option Composite] :=
  .cons (.required "name" .text) <|
  .cons (.required "resourceVersion" .natural) <|
  .cons (.optional "status" (.optional Composite.codec) none) .nil

def Target.codec : Codec Target :=
  .record "CompositeTarget" fields
    (fun t => (t.name, t.version, t.status, ()))
    (fun (name, version, status, ()) => ⟨name, version, status⟩)

end FleetHealth

import FleetHealth.Json.Record
import FleetHealth.Member

/-!
The JSON form of members and their conditions.
-/

namespace FleetHealth

open FleetHealth.Json

/-- Only the three names stand for an answer. -/
def Truth.codec : Codec Truth :=
  .choice name fun s =>
    match ofName? s with
    | some t => .ok t
    | none => .error (.unknownChoice s (all.map name))

/-- Any name stands for a reason. -/
def Reason.codec : Codec Reason :=
  .choice name fun s => .ok (ofName s)

/-- All but the reason may be left out. -/
def Condition.fields : Fields [String, Truth, Reason, String] :=
  .cons (.optional "type" .text "") <|
  .cons (.optional "status" Truth.codec .default) <|
  .cons (.required "reason" Reason.codec) <|
  .cons (.optional "message" .text "") .nil

def Condition.codec : Codec Condition :=
  .record "Condition" fields
    (fun c => (c.kind, c.status, c.reason, c.message, ()))
    (fun (kind, status, reason, message, ()) => ⟨kind, status, reason, message⟩)

/-- A member may report nothing. -/
def Member.Status.fields : Fields [List Condition] :=
  .cons (.optional "conditions" (.list Condition.codec) []) .nil

def Member.Status.codec : Codec Member.Status :=
  .record "MemberStatus" fields
    (fun s => (s.conditions, ()))
    (fun (conditions, ()) => ⟨conditions⟩)

/-- A member has a name. -/
def Member.fields : Fields [String, Member.Status] :=
  .cons (.required "name" .text) <|
  .cons (.optional "status" Member.Status.codec ⟨[]⟩) .nil

def Member.codec : Codec Member :=
  .record "Member" fields
    (fun m => (m.name, m.status, ()))
    (fun (name, status, ()) => ⟨name, status⟩)

end FleetHealth

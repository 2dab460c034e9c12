import FleetHealth.Pass

/-!
Traces: the calls of a pass, whatever becomes of the site between its steps.
-/

namespace FleetHealth

/-- The kind of a call. -/
def Call.kind : Call → CallKind
  | .get .. => .get
  | .list _ => .list
  | .patch .. => .patch

/-- A pass that began with this target has made these calls and is now at this step; each step was
taken on some site. -/
inductive Pass.Trace (name : String) : List Call → Pass → Prop
  | start : Trace name [] (.fetching name)
  | step {calls : List Call} {p : Pass} (s : Site) (earlier : Trace name calls p)
      (going : p.result? = none) : Trace name (calls ++ (p.step s).2.2.toList) (p.step s).1

namespace Pass

/-- A pass makes the call that is due. -/
theorem due_of_step {p : Pass} {s : Site} {c : Call} (h : (p.step s).2.2 = some c) :
    p.due = some c.kind := by
  cases p with
  | timing | finished => cases h
  | fetching | listing =>
    cases h
    rfl
  | writing t desired result =>
    simp only [step, Site.patch] at h
    split at h <;> cases h <;> rfl

/-- The kinds of the calls that a pass may have made. -/
def Made (kinds : List CallKind) : Pass → Prop
  | .fetching _ => kinds = []
  | .timing _ | .listing .. => kinds = [.get]
  | .writing .. => kinds = [.get, .list]
  | .finished _ => kinds ∈ [[CallKind.get], [.get, .list], [.get, .list, .patch]]

/-- A pass fetches once, then lists at most once, then writes at most once. -/
theorem Trace.made {name : String} {calls : List Call} {p : Pass} (h : Trace name calls p) :
    p.Made (calls.map Call.kind) := by
  induction h with
  | start => rfl
  | @step calls p s earlier going ih =>
    rw [List.map_append]
    cases p with
    | finished r => cases going
    | timing t => simpa [Pass.step, Made] using ih
    | fetching n =>
      have none_yet : calls.map Call.kind = [] := ih
      rw [none_yet]
      simp only [Pass.step, fetched]
      split <;> simp [Made, Call.kind]
    | listing t now =>
      have fetched : calls.map Call.kind = [.get] := ih
      rw [fetched]
      simp only [Pass.step, listed]
      split <;> simp [Made, Call.kind]
    | writing t desired result =>
      have listed : calls.map Call.kind = [.get, .list] := ih
      rw [listed]
      simp only [Pass.step, Site.patch]
      split <;> simp [Made, Call.kind]

end Pass

end FleetHealth

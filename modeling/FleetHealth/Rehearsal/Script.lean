import FleetHealth.Service

/-!
Scripts: what is to happen to a site and its service, step by step.

A script acts on the store, the roster, the clock and the service directly, or calls for a pass or a
write, whose calls are noted down. With `Step.onNext` it lays a hook: steps that happen in the middle
of a later call, which is how a script brings about a race.
-/

namespace FleetHealth.Rehearsal

open FleetHealth.Time (Instant)

/-- One thing that happens. -/
inductive Step
  | upsert (m : Member)
  | remove (name : String)
  | list
  | failList (text : Option String)
  | insert (t : Target)
  | get (name : String)
  | patch (base : Target) (status : Composite)
  | unavailable (value : Bool)
  | clock (now : Instant)
  | pass
  | write (fetched : Target) (desired : Composite)
  | onNext (kind : CallKind) (steps : List Step)
  | start
  | shutdown
  | send (triggers : List Trigger)
  | drop

/-- What comes of a step. -/
inductive Result
  | done
  | removed (answer : Except Roster.Error Member)
  | members (ms : List Member)
  | fetched (answer : Except Store.Error (Option Target))
  | patched (answer : Except Store.Error Target)
  | passed (answer : PassResult)
  | wrote (answer : Except Store.Error Store.Effect)
  | started (answer : Except ServiceError Unit)
  | offers (answers : List Offer)

/-- What is noted down: a call of a pass or a write, or the results of a hook. -/
inductive Note
  | call (c : Call)
  | hook (kind : CallKind) (results : List Result)

/-! ### Weights

The weight of a step bounds how many moves can follow from it. A pass takes at most four steps, each
of which may wait for a hook. -/

/-- The weight of a trigger, which may call for a pass of the service. -/
def triggerWeight : Nat := 12

/-- The weight of a pass that has a number of steps left. -/
def passWeight (stepsLeft : Nat) : Nat := 2 * stepsLeft + 1

mutual

/-- The weight of a step. -/
def Step.weight : Step → Nat
  | .onNext _ steps => 2 + stepsWeight steps
  | .send ts => 1 + triggerWeight * ts.length
  | .pass => 12
  | .write .. => 3
  | _ => 1

/-- The weight of a list of steps. -/
def stepsWeight : List Step → Nat
  | [] => 0
  | s :: ss => s.weight + stepsWeight ss

end

end FleetHealth.Rehearsal

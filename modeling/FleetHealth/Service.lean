import FleetHealth.Pass

/-!
The service: passes in the background, called for by triggers.

Triggers wait in a bounded queue. When the loop of a running service wakes, it takes all of them at
once, and makes one pass if any of them concerns its target. A service is started at most once. A
loop that is told to end does so when it next waits, and from then on no more triggers are accepted.
-/

namespace FleetHealth

/-- Notice of a change: of a target, or of a member. -/
inductive Trigger
  | target (name : String)
  | member (name : String)
  deriving DecidableEq, Repr

/-- Whether a trigger calls for a pass over a target: notices of members always do. -/
def Trigger.concerns (target : String) : Trigger → Bool
  | .target name => name == target
  | .member _ => true

/-- Which target is kept up to date, and how many triggers may wait. -/
structure Config where
  target : String
  buffer : Nat
  deriving DecidableEq, Repr

/-- The target of a service that is told of none. -/
def Config.defaultTarget : String := "platform-operators-aggregated"

/-- The configuration of a service that is told nothing. -/
def Config.default : Config := ⟨Config.defaultTarget, 64⟩

/-- Where a service is in its life. -/
inductive Lifecycle
  | created
  | running
  /-- The loop has been told to end, and has not yet looked. -/
  | ending
  | ended
  deriving DecidableEq, Repr

/-- A service, the triggers that wait, oldest first, and the pass that its loop is at. -/
structure Service where
  config : Config
  lifecycle : Lifecycle
  queue : List Trigger
  pass : Option Pass

/-- Why a service refuses to start. -/
inductive ServiceError
  | alreadyStarted
  deriving DecidableEq, Repr

/-- The wording of an error. -/
def ServiceError.message : ServiceError → String
  | alreadyStarted => "Aggregator service already started"

/-- What becomes of a trigger that is offered. -/
inductive Offer
  | sent
  | full
  | closed
  deriving DecidableEq, Repr

/-- The name of an answer to an offer. -/
def Offer.name : Offer → String
  | sent => "sent"
  | full => "full"
  | closed => "closed"

namespace Service

/-- A service that has not been started. -/
def new (config : Config) : Service :=
  ⟨config, .created, [], none⟩

/-- How many triggers may wait: at least one. -/
def capacity (s : Service) : Nat :=
  max s.config.buffer 1

/-- Offers a trigger. -/
def offer (s : Service) (t : Trigger) : Offer × Service :=
  match s.lifecycle with
  | .ended => (.closed, s)
  | .created | .running | .ending =>
    if s.capacity ≤ s.queue.length then (.full, s)
    else (.sent, { s with queue := s.queue ++ [t] })

/-- Offers triggers one after the other. -/
def offerAll (s : Service) : List Trigger → List Offer × Service
  | [] => ([], s)
  | t :: ts =>
    let (o, s') := s.offer t
    let (os, s'') := s'.offerAll ts
    (o :: os, s'')

/-- Starts the loop, once. -/
def start (s : Service) : Except ServiceError Service :=
  match s.lifecycle with
  | .created => .ok { s with lifecycle := .running }
  | _ => .error .alreadyStarted

/-- Ends the service; triggers that wait are lost. -/
def close (s : Service) : Service :=
  { s with lifecycle := .ended, queue := [] }

/-- Stops a running service: at once if its loop waits, and otherwise after the pass that it is
at. -/
def shutdown (s : Service) : Service :=
  match s.lifecycle, s.pass with
  | .running, none => s.close
  | .running, some _ => { s with lifecycle := .ending }
  | _, _ => s

/-- Gives the service up. Nobody waits for a loop that runs: it is told to end, and until it looks,
triggers are still accepted that it will not serve. -/
def drop (s : Service) : Service :=
  match s.lifecycle with
  | .created => s.close
  | .running => { s with lifecycle := .ending }
  | _ => s

/-- Lets the loop look whether it has been told to end. -/
def rest (s : Service) : Service :=
  match s.lifecycle with
  | .ending => s.close
  | _ => s

/-- Whether the loop has something to take: it runs, is at no pass, and a trigger waits. -/
def canWake (s : Service) : Bool :=
  s.lifecycle == .running && s.pass.isNone && !s.queue.isEmpty

/-- Takes all triggers that wait, and begins a pass if one of them calls for it. -/
def wake (s : Service) : Service :=
  let called := s.queue.any (Trigger.concerns s.config.target)
  { s with queue := [], pass := if called then some (.fetching s.config.target) else none }

/-- Takes a step of the pass that the loop is at; a finished pass is left. -/
def advance (s : Service) (site : Site) : Service × Site × Option Call :=
  match s.pass with
  | none => (s, site, none)
  | some p =>
    match p.result? with
    | some _ => ({ s with pass := none }, site, none)
    | none =>
      let (p', site', call) := p.step site
      ({ s with pass := some p' }, site', call)

end Service

end FleetHealth

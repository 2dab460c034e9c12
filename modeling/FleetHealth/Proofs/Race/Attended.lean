import FleetHealth.Proofs.Race.Log
import FleetHealth.Service

/-!
Races in which a service takes part.

Some passes are called for directly, and one at a time is that of a service, which its loop moves on
as it takes its turns. Apart from that the loop is nothing to the other passes: whatever the service
does is a step of the race, or no matter of the race at all (`Attended.race_step`).
-/

namespace FleetHealth

/-- A race, a service, and the number of the racer that the loop of the service is at or was at
last. -/
structure Attended where
  race : Race
  service : Service
  seat : Nat

namespace Attended

/-- A service that has not been started, and a race before anything has happened. -/
def new (name : String) (buffer : Nat) (s : Site) : Attended :=
  ⟨.new name s, .new ⟨name, buffer⟩, 0⟩

/-- One thing that can happen. -/
inductive Event
  /-- A pass that was called for directly begins or takes its next step, or the site changes. -/
  | direct (e : Race.Event)
  | offer (t : Trigger)
  | start
  | shutdown
  | drop
  /-- The loop of the service takes its next turn. -/
  | turn

/-- Whether an event is no direct write of the target. -/
def Event.Spares (name : String) : Event → Prop
  | .direct e => Race.Event.Spares name e
  | .offer _ | .start | .shutdown | .drop | .turn => True

instance (name : String) : (e : Event) → Decidable (e.Spares name)
  | .direct e => inferInstanceAs (Decidable (Race.Event.Spares name e))
  | .offer _ | .start | .shutdown | .drop | .turn => inferInstanceAs (Decidable True)

/-- The event moves the pass of the service, which its loop alone does. -/
def Holds (m : Attended) (e : Race.Event) : Prop :=
  m.service.pass.isSome ∧ e = .move m.seat

instance (m : Attended) : (e : Race.Event) → Decidable (m.Holds e)
  | .move i => decidable_of_iff (m.service.pass.isSome ∧ i = m.seat) (by simp [Holds])
  | .enter | .fleet _ | .outage _ | .unavailable _ | .clock _ | .patch .. | .insert _ =>
    isFalse (by simp [Holds])

/-- What comes of a turn of the loop: it takes the triggers that wait, or looks whether it has been
told to end, or moves its pass on. -/
def turn (m : Attended) : Attended :=
  if m.service.canWake then
    let service := m.service.wake
    if service.pass.isSome then ⟨m.race.step .enter, service, m.race.racers.length⟩
    else { m with service }
  else if m.service.pass.isNone then { m with service := m.service.rest }
  else
    let (service, site, _) := m.service.advance m.race.site
    { m with service, race := { m.race.step (.move m.seat) with site } }

/-- What comes of one thing. -/
def step (m : Attended) : Event → Attended
  | .direct e => if m.Holds e then m else { m with race := m.race.step e }
  | .offer t => { m with service := (m.service.offer t).2 }
  | .start =>
    match m.service.start with
    | .ok service => { m with service }
    | .error _ => m
  | .shutdown => { m with service := m.service.shutdown }
  | .drop => { m with service := m.service.drop }
  | .turn => m.turn

/-- What comes of all of this. -/
def run (m : Attended) (es : List Event) : Attended := es.foldl step m

/-- The call that a pass makes with an event, and the number of the pass. -/
def call? (m : Attended) : Event → Option (Nat × Call)
  | .direct e => if m.Holds e then none else m.race.call? e
  | .turn => (m.service.advance m.race.site).2.2.map fun c => (m.seat, c)
  | .offer _ | .start | .shutdown | .drop => none

@[simp] theorem run_nil (m : Attended) : m.run [] = m := rfl

theorem run_concat (m : Attended) (es : List Event) (e : Event) :
    m.run (es ++ [e]) = (m.run es).step e := by
  simp [run]

/-! ### The service in the race -/

/-- The service keeps the target of the race up to date, and its pass is at the step of its racer. -/
structure Seated (m : Attended) : Prop where
  target : m.service.config.target = m.race.name
  pass : ∀ p ∈ m.service.pass, ∃ x, m.race.racers[m.seat]? = some x ∧ x.pass = p

variable {m : Attended} {e : Event}

/-- A turn of a loop that is at a pass is a move of its racer. -/
theorem advance_eq {x : Racer} (hx : m.race.racers[m.seat]? = some x)
    (active : m.service.pass = some x.pass) :
    (m.service.advance m.race.site).2.1 = (m.race.step (.move m.seat)).site ∧
      ((m.service.advance m.race.site).2.2.map fun c => (m.seat, c)) =
        m.race.call? (.move m.seat) ∧
      ∀ p ∈ (m.service.advance m.race.site).1.pass, (x.next m.race.site).pass = p := by
  obtain ⟨pass, read, heard⟩ := x
  cases pass with
  | finished r =>
    simp [Service.advance, active, Pass.result?, Race.step, Race.call?, hx, Pass.step]
  | fetching | timing | listing | writing =>
    simp [Service.advance, active, Pass.result?, Race.step, Race.call?, hx, Racer.next]

/-- What a turn of the loop is to the race. -/
theorem race_turn (seated : m.Seated) :
    (m.turn.race = m.race ∧ m.call? .turn = none) ∨
      ∃ f, m.turn.race = m.race.step f ∧ m.call? .turn = m.race.call? f ∧
        (f = .enter ∨ f = .move m.seat) := by
  unfold turn
  split
  · next wakes =>
    have idle : m.service.pass = none := by
      simp only [Service.canWake, Bool.and_eq_true, Option.isNone_iff_eq_none] at wakes
      exact wakes.1.2
    have quiet : m.call? .turn = none := by simp [call?, Service.advance, idle]
    dsimp only
    split
    · exact .inr ⟨.enter, rfl, quiet, .inl rfl⟩
    · exact .inl ⟨rfl, quiet⟩
  · cases hp : m.service.pass with
    | none => exact .inl ⟨rfl, by simp [call?, Service.advance, hp]⟩
    | some p =>
      obtain ⟨x, hx, rfl⟩ := seated.pass p hp
      obtain ⟨site, call, -⟩ := advance_eq hx hp
      refine .inr ⟨.move m.seat, ?_, call, .inr rfl⟩
      rw [if_neg (by simp)]
      simp only [site]

/-- Whatever happens is a step of the race, with the call that it makes there, or no matter of the
race. -/
theorem race_step {name : String} (seated : m.Seated) (spares : e.Spares name) :
    ((m.step e).race = m.race ∧ m.call? e = none) ∨
      ∃ f, (m.step e).race = m.race.step f ∧ m.call? e = m.race.call? f ∧
        Race.Event.Spares name f := by
  cases e with
  | direct f =>
    by_cases held : m.Holds f
    · exact .inl (by simp [step, call?, held])
    · exact .inr ⟨f, by simp [step, held], by simp [call?, held], spares⟩
  | offer | shutdown | drop => exact .inl ⟨rfl, rfl⟩
  | start =>
    simp only [step]
    split <;> exact .inl ⟨rfl, rfl⟩
  | turn =>
    rcases race_turn seated with same | ⟨f, race, call, rfl | rfl⟩
    · exact .inl same
    · exact .inr ⟨.enter, race, call, trivial⟩
    · exact .inr ⟨.move m.seat, race, call, trivial⟩

theorem seated_new (name : String) (buffer : Nat) (s : Site) : (new name buffer s).Seated :=
  ⟨rfl, fun _ hp => (Option.not_mem_none _ hp).elim⟩

/-- Apart from its turns nothing moves the pass of the service, or makes it another service. -/
theorem service_step (other : e ≠ .turn) :
    (m.step e).service.config = m.service.config ∧ (m.step e).service.pass = m.service.pass ∧
      (m.step e).seat = m.seat := by
  cases e with
  | turn => exact absurd rfl other
  | direct f =>
    simp only [step]
    split <;> exact ⟨rfl, rfl, rfl⟩
  | offer t =>
    simp only [step, Service.offer]
    cases m.service.lifecycle with
    | ended => simp
    | created | running | ending =>
      dsimp only
      split <;> simp
  | start =>
    simp only [step, Service.start]
    cases m.service.lifecycle <;> exact ⟨rfl, rfl, rfl⟩
  | shutdown =>
    simp only [step, Service.shutdown]
    split <;> simp [Service.close]
  | drop =>
    simp only [step, Service.drop]
    split <;> simp [Service.close]

theorem config_turn (m : Attended) : m.turn.service.config = m.service.config := by
  unfold turn
  split
  · dsimp only
    split <;> rfl
  · split
    · simp only [Service.rest]
      split <;> rfl
    · simp only [Service.advance]
      split
      · rfl
      · split <;> rfl

theorem target_step {name : String} (seated : m.Seated) (spares : e.Spares name) :
    (m.step e).service.config.target = (m.step e).race.name := by
  have config : (m.step e).service.config = m.service.config := by
    by_cases turn : e = .turn
    · subst turn
      exact config_turn m
    · exact (service_step turn).1
  rw [config, seated.target]
  rcases race_step seated spares with ⟨same, -⟩ | ⟨f, race, -⟩
  · rw [same]
  · rw [race, Race.name_step]

/-- The loop finds its pass where its racer is. -/
theorem pass_turn (seated : m.Seated) :
    ∀ p ∈ m.turn.service.pass, ∃ x, m.turn.race.racers[m.turn.seat]? = some x ∧ x.pass = p := by
  unfold turn
  split
  · dsimp only
    split
    · intro p hp
      refine ⟨.new m.race.name, by simp [Race.step], ?_⟩
      simp only [Service.wake, seated.target] at hp
      split at hp
      · exact Option.some.inj hp
      · cases hp
    · next unbegun =>
      intro p hp
      rw [Option.mem_def.1 hp] at unbegun
      exact absurd rfl unbegun
  · cases hp : m.service.pass with
    | none =>
      have still : m.service.rest.pass = none := by
        simp only [Service.rest]
        split <;> exact hp
      intro p hp'
      simp [still] at hp'
    | some q =>
      obtain ⟨x, hx, rfl⟩ := seated.pass q hp
      obtain ⟨-, -, next⟩ := advance_eq hx hp
      have inside := (List.getElem?_eq_some_iff.1 hx).1
      intro p hp'
      refine ⟨x.next m.race.site, ?_, next p hp'⟩
      simp only [Race.step, hx]
      exact List.getElem?_set_self inside

/-- The racer of the service keeps its place, since nothing else moves it. -/
theorem Seated.step {name : String} (seated : m.Seated) (spares : e.Spares name) :
    (m.step e).Seated := by
  refine ⟨target_step seated spares, ?_⟩
  by_cases turn : e = .turn
  · subst turn
    exact pass_turn seated
  · obtain ⟨-, pass, seat⟩ := service_step (m := m) turn
    rw [pass, seat]
    intro p hp
    obtain ⟨x, hx, at_step⟩ := seated.pass p hp
    refine ⟨x, ?_, at_step⟩
    cases e with
    | turn => exact absurd rfl turn
    | offer | shutdown | drop => exact hx
    | start =>
      simp only [step]
      split <;> exact hx
    | direct f =>
      by_cases held : m.Holds f
      · simpa [step, held] using hx
      · rcases Race.racer_step (e := f) hx with same | ⟨rfl, -⟩
        · simpa [step, held] using same
        · exact absurd ⟨by simp [Option.mem_def.1 hp], rfl⟩ held

end Attended

end FleetHealth

import FleetHealth.Service

/-!
Watches: the life of a service, with notes of what its loop does.

A watch has a service, its site and the notes so far. Triggers are offered, the loop takes its
turns, the site changes, and the service is started and stopped, all in any order; so a trigger may
come before the start, while the loop waits, or between any two steps of a pass.
`Watch.effect_step` says once what any of this does to the queue, to the pass that the loop is at
and to the notes.
-/

namespace FleetHealth

/-- The service has not been stopped; it may not have been started either. -/
def Lifecycle.Alive : Lifecycle → Prop
  | .created | .running => True
  | .ending | .ended => False

instance : (l : Lifecycle) → Decidable l.Alive
  | .created | .running => inferInstanceAs (Decidable True)
  | .ending | .ended => inferInstanceAs (Decidable False)

/-- Something that is noted down of a service. -/
inductive Watch.Note
  /-- A trigger was offered and accepted. -/
  | accepted (t : Trigger)
  /-- The loop took these triggers. -/
  | took (batch : List Trigger)
  /-- The loop began a pass. -/
  | began
  /-- The pass that the loop is at made a call. -/
  | called (c : Call)
  /-- The loop left its pass, which had this answer. -/
  | answered (r : PassResult)

/-- A service, its site, and the notes so far, oldest first. -/
structure Watch where
  service : Service
  site : Site
  notes : List Watch.Note

namespace Watch

/-- A service that has not been started, before anything has happened. -/
def new (config : Config) (site : Site) : Watch := ⟨.new config, site, []⟩

/-- One thing that can happen. -/
inductive Event
  | offer (t : Trigger)
  | start
  | shutdown
  | drop
  /-- The loop takes its next turn. -/
  | turn
  | change (site : Site)

/-- Whether a running service goes on after an event. -/
def Event.Spares : Event → Prop
  | .shutdown | .drop => False
  | .offer _ | .start | .turn | .change _ => True

instance : (e : Event) → Decidable e.Spares
  | .shutdown | .drop => inferInstanceAs (Decidable False)
  | .offer _ | .start | .turn | .change _ => inferInstanceAs (Decidable True)

/-- How many turns of the loop an event is. -/
def Event.turns : Event → Nat
  | .turn => 1
  | _ => 0

/-- The watch after a trigger has been offered. -/
def offer (w : Watch) (t : Trigger) : Watch :=
  match w.service.offer t with
  | (.sent, service) => { w with service, notes := w.notes ++ [.accepted t] }
  | (_, service) => { w with service }

/-- The watch after a turn of the loop: it takes the triggers that wait, or looks whether it has been
told to end, or moves its pass on. -/
def turn (w : Watch) : Watch :=
  if w.service.canWake then
    let service := w.service.wake
    let begun := service.pass.toList.map fun _ => Note.began
    { w with service, notes := w.notes ++ .took w.service.queue :: begun }
  else if w.service.pass.isNone then { w with service := w.service.rest }
  else
    let (service, site, call) := w.service.advance w.site
    let answer := w.service.pass.bind Pass.result?
    ⟨service, site, w.notes ++ (call.toList.map .called ++ answer.toList.map .answered)⟩

/-- The watch after one thing has happened. -/
def step (w : Watch) : Event → Watch
  | .offer t => w.offer t
  | .start =>
    match w.service.start with
    | .ok service => { w with service }
    | .error _ => w
  | .shutdown => { w with service := w.service.shutdown }
  | .drop => { w with service := w.service.drop }
  | .turn => w.turn
  | .change site => { w with site }

/-- The watch after all of this has happened. -/
def run (w : Watch) (es : List Event) : Watch := es.foldl step w

@[simp] theorem run_nil (w : Watch) : w.run [] = w := rfl

@[simp] theorem run_cons (w : Watch) (e : Event) (es : List Event) :
    w.run (e :: es) = (w.step e).run es := rfl

theorem run_append (w : Watch) (es fs : List Event) : w.run (es ++ fs) = (w.run es).run fs :=
  List.foldl_append

/-! ### What an event does -/

/-- What can come of an event. -/
inductive Effect (w : Watch) (e : Event) : Watch → Prop
  /-- Nothing that the loop goes by has changed; if it was the turn of a loop that runs, it waits. -/
  | still (lifecycle : Lifecycle) (site : Site)
      (past : lifecycle.Alive → w.service.lifecycle.Alive)
      (stays : e.Spares → w.service.lifecycle = .running → lifecycle = .running)
      (waits : e = .turn → w.service.lifecycle = .running →
        w.service.pass = none ∧ w.service.queue = []) :
      Effect w e { w with service.lifecycle := lifecycle, site }
  /-- The service has ended, and what waited is lost. -/
  | lost (stopped : e.Spares → w.service.lifecycle ≠ .running) :
      Effect w e { w with service := w.service.close }
  | accept (t : Trigger) (offered : e = .offer t) :
      Effect w e { w with
        service.queue := w.service.queue ++ [t]
        notes := w.notes ++ [.accepted t] }
  /-- The loop has taken triggers that call for nothing. -/
  | ignore (idle : w.service.pass = none) (waiting : w.service.queue ≠ [])
      (uncalled : w.service.queue.any (Trigger.concerns w.service.config.target) = false) :
      Effect w e { w with service.queue := [], notes := w.notes ++ [.took w.service.queue] }
  /-- The loop has taken triggers and begun a pass. -/
  | begin (idle : w.service.pass = none)
      (called : w.service.queue.any (Trigger.concerns w.service.config.target) = true) :
      Effect w e { w with
        service.queue := []
        service.pass := some (.fetching w.service.config.target)
        notes := w.notes ++ [.took w.service.queue, .began] }
  /-- The pass has taken a step. -/
  | move (p : Pass) (active : w.service.pass = some p) (going : p.result? = none) :
      Effect w e { w with
        service.pass := some (p.step w.site).1
        site := (p.step w.site).2.1
        notes := w.notes ++ (p.step w.site).2.2.toList.map .called }
  /-- The loop has left its pass. -/
  | leave (r : PassResult) (active : w.service.pass = some (.finished r)) :
      Effect w e { w with service.pass := none, notes := w.notes ++ [.answered r] }

theorem effect_still (w : Watch) {e : Event} (site : Site) (h : e ≠ .turn) :
    Effect w e { w with site } :=
  .still w.service.lifecycle site id (fun _ => id) fun he => absurd he h

theorem effect_offer (w : Watch) (t : Trigger) : Effect w (.offer t) (w.offer t) := by
  unfold offer
  split
  · next service h =>
    obtain rfl : service = { w.service with queue := w.service.queue ++ [t] } := by
      unfold Service.offer at h
      split at h
      · cases h
      all_goals split at h <;> cases h; rfl
    exact .accept t rfl
  · next answer service refused h =>
    obtain rfl : service = w.service := by
      unfold Service.offer at h
      split at h
      · cases h; rfl
      all_goals
        split at h
        · cases h; rfl
        · cases h; exact (refused rfl).elim
    exact effect_still w w.site nofun

theorem effect_turn (w : Watch) : Effect w .turn w.turn := by
  obtain ⟨⟨config, lifecycle, queue, pass⟩, site, notes⟩ := w
  unfold turn
  split
  · next wakes =>
    simp only [Service.canWake, Bool.and_eq_true, beq_iff_eq, Option.isNone_iff_eq_none,
      Bool.not_eq_true', List.isEmpty_eq_false_iff] at wakes
    obtain ⟨⟨-, idle⟩, waiting⟩ := wakes
    subst idle
    simp only [Service.wake]
    split
    · next called => exact .begin rfl called
    · next uncalled => exact .ignore rfl waiting (by simpa using uncalled)
  · next sleeps =>
    cases pass with
    | none =>
      have waits : lifecycle = .running → queue = [] := by
        intro running
        simpa [Service.canWake, running] using sleeps
      cases lifecycle with
      | ending => exact .lost nofun
      | created | ended => exact .still _ site id nofun nofun
      | running => exact .still .running site id (fun _ => id) fun _ _ => ⟨rfl, waits rfl⟩
    | some p =>
      cases hr : p.result? with
      | none => simpa [Service.advance, hr] using Effect.move p rfl hr
      | some r =>
        obtain rfl : p = .finished r := by
          cases p with
          | finished r' => exact congrArg _ (Option.some.inj hr)
          | _ => cases hr
        exact .leave r rfl

theorem effect_step (w : Watch) (e : Event) : Effect w e (w.step e) := by
  cases e with
  | offer t => exact effect_offer w t
  | turn => exact effect_turn w
  | change site => exact effect_still w site nofun
  | start =>
    simp only [step, Service.start]
    cases hl : w.service.lifecycle with
    | created => exact .still .running w.site (fun _ => by rw [hl]; trivial) (fun _ _ => rfl) nofun
    | running | ending | ended => exact effect_still w w.site nofun
  | shutdown =>
    simp only [step, Service.shutdown]
    split
    · exact .lost False.elim
    · exact .still .ending w.site False.elim False.elim nofun
    · exact effect_still w w.site nofun
  | drop =>
    simp only [step, Service.drop]
    split
    · exact .lost False.elim
    · exact .still .ending w.site False.elim False.elim nofun
    · exact effect_still w w.site nofun

theorem Effect.config {w w' : Watch} {e : Event} (h : Effect w e w') :
    w'.service.config = w.service.config := by
  cases h <;> rfl

@[simp] theorem config_run (w : Watch) (es : List Event) :
    (w.run es).service.config = w.service.config := by
  induction es generalizing w with
  | nil => rfl
  | cons e es ih => rw [run_cons, ih, (effect_step w e).config]

/-! ### The course of a life -/

theorem Effect.alive {w w' : Watch} {e : Event} (h : Effect w e w')
    (alive : w'.service.lifecycle.Alive) : w.service.lifecycle.Alive := by
  cases h with
  | still _ _ past _ _ => exact past alive
  | lost _ => exact alive.elim
  | accept | ignore | begin | move | leave => exact alive

theorem Effect.running {w w' : Watch} {e : Event} (h : Effect w e w') (spares : e.Spares)
    (running : w.service.lifecycle = .running) : w'.service.lifecycle = .running := by
  cases h with
  | still _ _ _ stays _ => exact stays spares running
  | lost stopped => exact absurd running (stopped spares)
  | accept | ignore | begin | move | leave => exact running

/-- A service that has been stopped stays so. -/
theorem alive_of_run {w : Watch} {es : List Event} (h : (w.run es).service.lifecycle.Alive) :
    w.service.lifecycle.Alive := by
  induction es generalizing w with
  | nil => exact h
  | cons e es ih => exact (effect_step w e).alive (ih h)

/-- A running service goes on unless it is stopped, whatever its passes answer. -/
theorem running_run {w : Watch} {es : List Event} (spares : ∀ e ∈ es, e.Spares)
    (running : w.service.lifecycle = .running) : (w.run es).service.lifecycle = .running := by
  induction es generalizing w with
  | nil => exact running
  | cons e es ih =>
    obtain ⟨he, hes⟩ := List.forall_mem_cons.1 spares
    exact ih hes ((effect_step w e).running he running)

end Watch

end FleetHealth

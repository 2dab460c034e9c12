import FleetHealth.Proofs.Service.Wakeups

/-!
Services that are asked one thing at a time.

A service is started, shut down, dropped and sent triggers in any order, and between two of these
requests its loop runs until it waits (`Watch.Paced`), while the site changes as it likes. What has
been asked then settles where the service is in its life (`Watch.Phase`), and so what comes of the
next request: `Watch.Orderly` says it for each of them.
-/

namespace FleetHealth

/-! ### Offers and their answers -/

namespace Service

/-- A trigger that is offered finds the service ended, its queue full, or room in it. -/
theorem offer_cases (s : Service) (t : Trigger) :
    (s.lifecycle = .ended ∧ s.offer t = (.closed, s)) ∨
    (s.lifecycle ≠ .ended ∧ s.capacity ≤ s.queue.length ∧ s.offer t = (.full, s)) ∨
    (s.lifecycle ≠ .ended ∧ s.queue.length < s.capacity ∧
      s.offer t = (.sent, { s with queue := s.queue ++ [t] })) := by
  unfold offer
  cases s.lifecycle with
  | ended => exact .inl ⟨rfl, rfl⟩
  | created | running | ending =>
    by_cases crowded : s.capacity ≤ s.queue.length
    · exact .inr (.inl ⟨nofun, crowded, if_pos crowded⟩)
    · exact .inr (.inr ⟨nofun, Nat.lt_of_not_le crowded, if_neg crowded⟩)

/-- What the answer to an offer says, when the queue is not beyond its bounds. -/
structure Answers (s : Service) (t : Trigger) : Prop where
  closed : (s.offer t).1 = .closed ↔ s.lifecycle = .ended
  full : s.lifecycle ≠ .ended → ((s.offer t).1 = .full ↔ s.queue.length = s.capacity)
  sent : s.lifecycle ≠ .ended → ((s.offer t).1 = .sent ↔ s.queue.length < s.capacity)
  refused : (s.offer t).1 ≠ .sent → (s.offer t).2 = s
  queued : (s.offer t).1 = .sent → (s.offer t).2 = { s with queue := s.queue ++ [t] }

theorem answers_of_bounded {s : Service} (bounded : s.queue.length ≤ s.capacity) (t : Trigger) :
    s.Answers t := by
  rcases s.offer_cases t with ⟨ended, answer⟩ | ⟨open_, crowded, answer⟩ | ⟨open_, room, answer⟩
  · constructor <;> simp [answer, ended]
  · have full : s.queue.length = s.capacity := Nat.le_antisymm bounded crowded
    constructor <;> simp [answer, open_, full]
  · have other : s.queue.length ≠ s.capacity := Nat.ne_of_lt room
    constructor <;> simp [answer, open_, room, other]

end Service

namespace Watch

/-! ### Requests -/

/-- Something that is asked of a service. Triggers may be sent several at a time. -/
inductive Request
  | start
  | shutdown
  | drop
  | send (ts : List Trigger)
  deriving DecidableEq, Repr

/-- The events that a request is. -/
def Request.events : Request → List Event
  | .start => [.start]
  | .shutdown => [.shutdown]
  | .drop => [.drop]
  | .send ts => ts.map .offer

/-- An event that nobody has asked the service for: a turn of its loop, or a change of the site. -/
def Event.Unasked : Event → Prop
  | .turn | .change _ => True
  | .offer _ | .start | .shutdown | .drop => False

instance : (e : Event) → Decidable e.Unasked
  | .turn | .change _ => inferInstanceAs (Decidable True)
  | .offer _ | .start | .shutdown | .drop => inferInstanceAs (Decidable False)

theorem Event.Unasked.spares {e : Event} (unasked : e.Unasked) : e.Spares := by
  cases e with
  | turn | change => trivial
  | offer | start | shutdown | drop => exact unasked.elim

/-- The loop waits: its turn changes nothing. -/
def Waits (w : Watch) : Prop := w.step .turn = w

/-- A service of which all this has been asked, one after the other. After each request the loop has
run until it waited; and once the service has been dropped, it can only be sent triggers. -/
inductive Paced (config : Config) (site : Site) : List Request → Watch → Prop
  | new : Paced config site [] (new config site)
  | ask {asked : List Request} {w : Watch} (r : Request) (es : List Event)
    (earlier : Paced config site asked w) (possible : .drop ∈ asked → ∃ ts, r = .send ts)
    (unasked : ∀ e ∈ es, e.Unasked) (waits : ((w.run r.events).run es).Waits) :
    Paced config site (asked ++ [r]) ((w.run r.events).run es)

/-- The service was dropped, or it was started and then shut down. -/
def Stopped (asked : List Request) : Prop :=
  .drop ∈ asked ∨ ∃ before after, asked = before ++ .shutdown :: after ∧ .start ∈ before

/-- The calls that the loop made. -/
def calls (notes : List Note) : List Call :=
  notes.filterMap fun
    | .called c => some c
    | _ => none

/-- What comes of a request to a service of which all this has been asked. -/
structure Orderly (config : Config) (asked : List Request) (w : Watch) : Prop where
  /-- The first start succeeds. -/
  start : .start ∉ asked → .drop ∉ asked →
    w.service.start = .ok { w.service with lifecycle := .running }
  /-- Every other start is refused and changes nothing. -/
  start_again : .start ∈ asked → w.service.start = .error .alreadyStarted ∧ w.step .start = w
  /-- So the answers to triggers go, also of several triggers that are sent at a time. -/
  send : ∀ ahead t, let s := (w.run (Request.send ahead).events).service
    ((s.offer t).1 = .closed ↔ Stopped asked) ∧
    (¬ Stopped asked → ((s.offer t).1 = .full ↔ s.queue.length = max config.buffer 1)) ∧
    (¬ Stopped asked → ((s.offer t).1 = .sent ↔ s.queue.length < max config.buffer 1)) ∧
    ((s.offer t).1 ≠ .sent → (s.offer t).2 = s) ∧
    ((s.offer t).1 = .sent → (s.offer t).2 = { s with queue := s.queue ++ [t] })
  /-- Whatever happens next, the queue stays within its bounds. -/
  bounded : ∀ es, (w.run es).service.queue.length ≤ max config.buffer 1
  /-- A shutdown before the start changes nothing. -/
  shutdown_early : .start ∉ asked → w.step .shutdown = w
  /-- Before the start all that was accepted waits, and the loop has done nothing. -/
  kept : .start ∉ asked → .drop ∉ asked →
    w.service.queue = accepted w.notes ∧ w.notes.filter Note.ofLoop = []
  /-- The first start serves all of it as one batch, with one pass if any of it calls for one. -/
  served : .start ∉ asked → .drop ∉ asked → ∀ es, (∀ e ∈ es, e.Unasked) →
    ((w.step .start).run es).Waits →
    ((w.step .start).run es).service.queue = [] ∧
    batches ((w.step .start).run es).notes =
      (if accepted w.notes = [] then [] else [accepted w.notes]) ∧
    ((w.step .start).run es).notes.countP Note.isBegan =
      if Calls config.target (accepted w.notes) then 1 else 0
  /-- A second shutdown changes nothing. -/
  shutdown_again : ∀ es, (∀ e ∈ es, e.Unasked) → ((w.step .shutdown).run es).Waits →
    ((w.step .shutdown).run es).step .shutdown = (w.step .shutdown).run es
  /-- From a shutdown after the start on, there are no calls, whatever happens. -/
  shutdown_silences : .start ∈ asked → ∀ es,
    calls ((w.step .shutdown).run es).notes = calls w.notes
  /-- From a drop on, there are no calls, whatever happens. -/
  drop_silences : ∀ es, calls ((w.step .drop).run es).notes = calls w.notes
  silent : Stopped asked → ∀ es, calls (w.run es).notes = calls w.notes
  /-- After any request the loop comes to wait. -/
  settles : ∀ r : Request, ∃ es : List Event, (∀ e ∈ es, e.Unasked) ∧
    ((w.run r.events).run es).Waits

/-! ### Histories of requests -/

section

variable {asked : List Request}

/-- Only a shutdown or a drop stops a service. -/
theorem not_stopped_concat {r : Request} (going : ¬ Stopped asked) (shutdown : r ≠ .shutdown)
    (drop : r ≠ .drop) : ¬ Stopped (asked ++ [r]) := by
  rintro (dropped | ⟨before, after, split, started⟩)
  · exact going (.inl (by simpa [Ne.symm drop] using dropped))
  · rcases List.eq_nil_or_concat after with rfl | ⟨after, last, rfl⟩
    · obtain ⟨-, same⟩ := List.append_inj' split rfl
      exact shutdown (List.cons.inj same).1
    · rw [List.concat_eq_append, ← List.cons_append, ← List.append_assoc] at split
      obtain ⟨rfl, -⟩ := List.append_inj' split rfl
      exact going (.inr ⟨before, after, rfl, started⟩)

theorem Stopped.concat (stopped : Stopped asked) (r : Request) : Stopped (asked ++ [r]) := by
  rcases stopped with dropped | ⟨before, after, rfl, started⟩
  · exact .inl (List.mem_append_left _ dropped)
  · exact .inr ⟨before, after ++ [r], by simp, started⟩

/-- A service that has not been started is stopped by a drop alone. -/
theorem not_stopped (unstarted : .start ∉ asked) (undropped : .drop ∉ asked) : ¬ Stopped asked := by
  rintro (dropped | ⟨before, after, rfl, started⟩)
  · exact undropped dropped
  · exact unstarted (List.mem_append_left _ started)

end

/-! ### Watches at no pass -/

section

variable {w : Watch} {e : Event} {es : List Event} {ts : List Trigger}

/-- Only an offer can make the queue longer, and only while there is room. -/
theorem bounded_step (bounded : w.service.queue.length ≤ w.service.capacity) (e : Event) :
    (w.step e).service.queue.length ≤ (w.step e).service.capacity := by
  have effect := effect_step w e
  cases e with
  | offer t =>
    rcases w.service.offer_cases t with ⟨-, answer⟩ | ⟨-, -, answer⟩ | ⟨-, room, answer⟩
    · simpa only [step, offer, answer] using bounded
    · simpa only [step, offer, answer] using bounded
    · simpa [step, offer, answer, Service.capacity] using Nat.succ_le_of_lt room
  | start | shutdown | drop | turn | change =>
    generalize w.step _ = w' at effect
    cases effect with
    | accept _ offered => cases offered
    | still | move | leave => exact bounded
    | lost | ignore | begin => exact Nat.zero_le _

theorem bounded_run (bounded : w.service.queue.length ≤ w.service.capacity) (es : List Event) :
    (w.run es).service.queue.length ≤ (w.run es).service.capacity := by
  induction es generalizing w with
  | nil => exact bounded
  | cons e es ih => exact ih (bounded_step bounded e)

@[simp] theorem accepted_map_accepted (ts : List Trigger) : accepted (ts.map .accepted) = ts := by
  induction ts with
  | nil => rfl
  | cons t ts ih => simp [ih]

/-- A trigger that is sent goes to the queue and into the notes, or nowhere. -/
theorem offer_spec (w : Watch) (t : Trigger) :
    w.step (.offer t) = w ∨ w.step (.offer t) = { w with
      service.queue := w.service.queue ++ [t]
      notes := w.notes ++ [.accepted t] } := by
  rcases w.service.offer_cases t with ⟨-, answer⟩ | ⟨-, -, answer⟩ | ⟨-, -, answer⟩
  · exact .inl (by simp only [step, offer, answer])
  · exact .inl (by simp only [step, offer, answer])
  · exact .inr (by simp only [step, offer, answer])

theorem send_spec (w : Watch) (ts : List Trigger) : ∃ sent : List Trigger,
    w.run (Request.send ts).events = { w with
      service.queue := w.service.queue ++ sent
      notes := w.notes ++ sent.map .accepted } := by
  induction ts generalizing w with
  | nil => exact ⟨[], by simp [Request.events]⟩
  | cons t ts ih =>
    obtain ⟨sent, run⟩ := ih (w.step (.offer t))
    rw [show Request.events (.send (t :: ts)) = .offer t :: (Request.send ts).events from rfl,
      run_cons, run]
    rcases w.offer_spec t with same | queued
    · exact ⟨sent, by rw [same]⟩
    · exact ⟨t :: sent, by simp [queued]⟩

/-- A loop that does not run and is at no pass only looks whether it has been told to end. -/
theorem turn_of_not_running (idle : w.service.pass = none)
    (halted : w.service.lifecycle ≠ .running) :
    w.step .turn = { w with service := w.service.rest } := by
  simp [step, turn, Service.canWake, idle, halted]

theorem waits_of_created (idle : w.service.pass = none)
    (created : w.service.lifecycle = .created) : w.Waits := by
  rw [Waits, turn_of_not_running idle (by simp [created])]
  simp only [Service.rest, created]

theorem waits_of_ended (idle : w.service.pass = none) (ended : w.service.lifecycle = .ended) :
    w.Waits := by
  rw [Waits, turn_of_not_running idle (by simp [ended])]
  simp only [Service.rest, ended]

/-- Only a service that runs can be shut down. -/
theorem shutdown_of_not_running (halted : w.service.lifecycle ≠ .running) :
    w.step .shutdown = w := by
  cases hl : w.service.lifecycle with
  | running => exact absurd hl halted
  | created | ending | ended => simp only [step, Service.shutdown, hl]

/-- Where each event at most changes the site, so do all of them. -/
theorem still_run (still : ∀ site, ∀ e ∈ es,
      ∃ site', ({ w with site } : Watch).step e = { w with site := site' }) :
    ∃ site, w.run es = { w with site } := by
  induction es generalizing w with
  | nil => exact ⟨w.site, rfl⟩
  | cons e es ih =>
    obtain ⟨site, first⟩ := still w.site e (List.mem_cons_self ..)
    obtain ⟨site', rest⟩ := ih (w := { w with site }) fun s f hf =>
      still s f (List.mem_cons_of_mem e hf)
    exact ⟨site', by rw [run_cons, first, rest]⟩

/-- Nothing is left to be done of a service that has ended. -/
theorem ended_run (idle : w.service.pass = none) (ended : w.service.lifecycle = .ended)
    (es : List Event) : ∃ site, w.run es = { w with site } := by
  refine still_run fun site e _ => ?_
  cases e with
  | change site' => exact ⟨site', rfl⟩
  | turn => exact ⟨site, waits_of_ended (w := { w with site }) idle ended⟩
  | offer t => exact ⟨site, by simp only [step, offer, Service.offer, ended]⟩
  | start => exact ⟨site, by simp only [step, Service.start, ended]⟩
  | shutdown => exact ⟨site, shutdown_of_not_running (by simp [ended])⟩
  | drop => exact ⟨site, by simp only [step, Service.drop, ended]⟩

/-- A service that has not been started does nothing by itself. -/
theorem created_run (idle : w.service.pass = none) (created : w.service.lifecycle = .created)
    (unasked : ∀ e ∈ es, e.Unasked) : ∃ site, w.run es = { w with site } := by
  refine still_run fun site e he => ?_
  have none_asked := unasked e he
  cases e with
  | change site' => exact ⟨site', rfl⟩
  | turn => exact ⟨site, waits_of_created (w := { w with site }) idle created⟩
  | offer | start | shutdown | drop => exact none_asked.elim

/-- The turn of a loop at no pass that has been told to end. -/
theorem turn_of_ending (idle : w.service.pass = none) (ending : w.service.lifecycle = .ending) :
    w.step .turn = { w with service := w.service.close } := by
  rw [turn_of_not_running idle (by simp [ending])]
  simp only [Service.rest, ending]

/-- A loop at no pass that has been told to end, and has come to wait, has ended. -/
theorem ending_run (idle : w.service.pass = none) (ending : w.service.lifecycle = .ending)
    (unasked : ∀ e ∈ es, e.Unasked) (waits : (w.run es).Waits) :
    ∃ site, w.run es = { w with service := w.service.close, site } := by
  induction es generalizing w with
  | nil =>
    have same :=
      congrArg (fun w => w.service.lifecycle) ((turn_of_ending idle ending).symm.trans waits)
    exact absurd (same.trans ending) nofun
  | cons e es ih =>
    obtain ⟨he, hes⟩ := List.forall_mem_cons.1 unasked
    cases e with
    | change site => exact ih (w := { w with site }) idle ending hes waits
    | turn =>
      rw [run_cons, turn_of_ending idle ending]
      exact ended_run (w := { w with service := w.service.close }) idle rfl es
    | offer | start | shutdown | drop => exact he.elim

/-- A service at no pass that has been stopped stays so, and makes no call. -/
theorem silent_step (idle : w.service.pass = none) (stopped : ¬ w.service.lifecycle.Alive)
    (e : Event) : (w.step e).service.pass = none ∧ ¬ (w.step e).service.lifecycle.Alive ∧
      calls (w.step e).notes = calls w.notes := by
  suffices quiet : (w.step e).service.pass = none ∧ calls (w.step e).notes = calls w.notes from
    ⟨quiet.1, fun alive => stopped ((effect_step w e).alive alive), quiet.2⟩
  have halted : w.service.lifecycle = .ending ∨ w.service.lifecycle = .ended := by
    cases hl : w.service.lifecycle with
    | ending => exact .inl rfl
    | ended => exact .inr rfl
    | created | running => exact absurd (by rw [hl]; trivial) stopped
  cases e with
  | offer t =>
    rcases w.offer_spec t with same | queued
    · rw [same]
      exact ⟨idle, rfl⟩
    · rw [queued]
      exact ⟨idle, by simp [calls]⟩
  | change site => exact ⟨idle, rfl⟩
  | turn =>
    rw [turn_of_not_running idle (by rcases halted with h | h <;> simp [h])]
    rcases halted with h | h <;> simp [Service.rest, Service.close, h, idle]
  | start => rcases halted with h | h <;> simp [step, Service.start, h, idle]
  | shutdown => rcases halted with h | h <;> simp [step, Service.shutdown, h, idle]
  | drop => rcases halted with h | h <;> simp [step, Service.drop, h, idle]

theorem silent_run (idle : w.service.pass = none) (stopped : ¬ w.service.lifecycle.Alive)
    (es : List Event) : calls (w.run es).notes = calls w.notes := by
  induction es generalizing w with
  | nil => rfl
  | cons e es ih =>
    obtain ⟨idle', stopped', same⟩ := silent_step idle stopped e
    exact (ih idle' stopped').trans same

/-- Of a service that runs, a loop to which nothing more is sent takes what waits as one batch. -/
theorem took_run (running : w.service.lifecycle = .running) (unasked : ∀ e ∈ es, e.Unasked) :
    ((w.run es).service.queue = w.service.queue ∧
      batches (w.run es).notes = batches w.notes) ∨
    ((w.run es).service.queue = [] ∧ w.service.queue ≠ [] ∧
      batches (w.run es).notes = batches w.notes ++ [w.service.queue]) := by
  induction es generalizing w with
  | nil => exact .inl ⟨rfl, rfl⟩
  | cons e es ih =>
    obtain ⟨he, hes⟩ := List.forall_mem_cons.1 unasked
    have effect := effect_step w e
    have rest := ih (effect.running he.spares running) hes
    rw [run_cons]
    generalize w.step e = w' at effect rest
    cases effect with
    | still => exact rest
    | lost stopped => exact absurd running (stopped he.spares)
    | accept t offered =>
      subst offered
      exact he.elim
    | ignore idle waiting _ =>
      rcases rest with ⟨empty, same⟩ | ⟨-, more, -⟩
      · exact .inr ⟨empty, waiting, by simp [same]⟩
      · exact absurd rfl more
    | begin idle called =>
      rcases rest with ⟨empty, same⟩ | ⟨-, more, -⟩
      · exact .inr ⟨empty, nonempty_of_calls called, by simp [same]⟩
      · exact absurd rfl more
    | move => simpa using rest
    | leave => simpa using rest

@[simp] theorem batches_filter_ofLoop (notes : List Note) :
    batches (notes.filter Note.ofLoop) = batches notes := by
  induction notes with
  | nil => rfl
  | cons n ns ih => cases n <;> simp [List.filter_cons, ih]

/-- A service that runs comes to wait. -/
theorem settles_of_running (running : w.service.lifecycle = .running) :
    ∃ n, (w.run (.replicate n .turn)).Waits := by
  induction h : (if w.service.queue = [] then 0 else 6) + w.busy using Nat.strongRecOn
    generalizing w with
  | ind left ih =>
    by_cases waits : w.Waits
    · exact ⟨0, waits⟩
    · have effect := effect_step w .turn
      have onward := effect.running trivial running
      suffices nearer :
          (if (w.step .turn).service.queue = [] then 0 else 6) + (w.step .turn).busy < left by
        obtain ⟨n, settled⟩ := ih _ nearer onward rfl
        exact ⟨n + 1, settled⟩
      subst h
      generalize w.step .turn = w' at effect
      cases effect with
      | still _ _ _ _ at_rest => exact absurd ((waits_iff running).2 (at_rest rfl running)) waits
      | lost stopped => exact absurd running (stopped trivial)
      | accept _ offered => cases offered
      | ignore idle waiting _ => simp [busy, idle, waiting]
      | begin idle called =>
        simp [busy, idle, nonempty_of_calls called, Pass.stepsLeft]
      | move p active going =>
        have nearer := Pass.stepsLeft_step (s := w.site) going
        simpa [busy, active] using nearer
      | leave r active => simp [busy, active]

/-- A loop at no pass comes to wait. -/
theorem settles_of_idle (idle : w.service.pass = none) :
    ∃ n, (w.run (.replicate n .turn)).Waits := by
  cases hl : w.service.lifecycle with
  | running => exact settles_of_running hl
  | created => exact ⟨0, waits_of_created idle hl⟩
  | ended => exact ⟨0, waits_of_ended idle hl⟩
  | ending =>
    have closed : w.run (.replicate 1 .turn) = { w with service := w.service.close } :=
      turn_of_ending idle hl
    refine ⟨1, ?_⟩
    rw [closed]
    exact waits_of_ended idle rfl

/-- No request begins a pass. -/
theorem idle_request (idle : w.service.pass = none) (r : Request) :
    (w.run r.events).service.pass = none := by
  cases r with
  | send ts =>
    obtain ⟨sent, queued⟩ := w.send_spec ts
    rw [queued]
    exact idle
  | start => cases hl : w.service.lifecycle <;> simp [Request.events, step, Service.start, hl, idle]
  | shutdown =>
    cases hl : w.service.lifecycle <;>
      simp [Request.events, step, Service.shutdown, Service.close, hl, idle]
  | drop =>
    cases hl : w.service.lifecycle <;>
      simp [Request.events, step, Service.drop, Service.close, hl, idle]

end

/-! ### Between requests -/

/-- Where a service is in its life, once all this has been asked of it and its loop waits. -/
inductive Phase (asked : List Request) (w : Watch) : Prop
  | created (lifecycle : w.service.lifecycle = .created) (unstarted : .start ∉ asked)
      (undropped : .drop ∉ asked) (kept : w.service.queue = accepted w.notes)
      (quiet : w.notes.filter Note.ofLoop = [])
  | running (lifecycle : w.service.lifecycle = .running) (started : .start ∈ asked)
      (going : ¬ Stopped asked)
  | ended (lifecycle : w.service.lifecycle = .ended) (stopped : Stopped asked)

section

variable {asked : List Request} {w : Watch} {es : List Event}

/-- The loop of a service that has ended stays where it is. -/
theorem phase_of_ended (idle : w.service.pass = none) (ended : w.service.lifecycle = .ended)
    (stopped : Stopped asked) (es : List Event) :
    (w.run es).service.pass = none ∧ Phase asked (w.run es) := by
  obtain ⟨site, same⟩ := ended_run idle ended es
  rw [same]
  exact ⟨idle, .ended ended stopped⟩

theorem phase_of_running (running : w.service.lifecycle = .running) (started : .start ∈ asked)
    (going : ¬ Stopped asked) (unasked : ∀ e ∈ es, e.Unasked) (waits : (w.run es).Waits) :
    (w.run es).service.pass = none ∧ Phase asked (w.run es) := by
  have onward : (w.run es).service.lifecycle = .running :=
    running_run (fun e he => (unasked e he).spares) running
  exact ⟨((waits_iff onward).1 waits).1, .running onward started going⟩

/-- One more request, after which the loop has come to wait again. -/
theorem Phase.ask (phase : Phase asked w) (idle : w.service.pass = none) {r : Request}
    (unasked : ∀ e ∈ es, e.Unasked) (waits : ((w.run r.events).run es).Waits) :
    ((w.run r.events).run es).service.pass = none ∧
      Phase (asked ++ [r]) ((w.run r.events).run es) := by
  cases phase with
  | ended ended stopped =>
    rw [← run_append]
    exact phase_of_ended idle ended (stopped.concat r) _
  | created created unstarted undropped kept quiet =>
    have going := not_stopped unstarted undropped
    cases r with
    | start =>
      have request : w.run Request.start.events = { w with service.lifecycle := .running } := by
        simp [Request.events, step, Service.start, created]
      rw [request] at waits ⊢
      exact phase_of_running rfl (by simp)
        (not_stopped_concat going (by simp) (by simp)) unasked waits
    | shutdown =>
      have request : w.run Request.shutdown.events = w := by
        simp [Request.events, step, Service.shutdown, created]
      rw [request]
      obtain ⟨site, same⟩ := created_run idle created unasked
      rw [same]
      exact ⟨idle, .created created (by simpa) (by simpa) kept quiet⟩
    | drop =>
      have request : w.run Request.drop.events = { w with service := w.service.close } := by
        simp [Request.events, step, Service.drop, created]
      rw [request]
      exact phase_of_ended (w := { w with service := w.service.close }) idle rfl (.inl (by simp)) es
    | send ts =>
      obtain ⟨sent, queued⟩ := w.send_spec ts
      obtain ⟨site, same⟩ := created_run (w := w.run (Request.send ts).events)
        (by rw [queued]; exact idle) (by rw [queued]; exact created) unasked
      rw [same, queued]
      exact ⟨idle, .created created (by simpa) (by simpa) (by simp [kept])
        (by simp [quiet])⟩
  | running running started going =>
    have started' : .start ∈ asked ++ [r] := List.mem_append_left _ started
    cases r with
    | start =>
      have request : w.run Request.start.events = w := by
        simp [Request.events, step, Service.start, running]
      rw [request] at waits ⊢
      exact phase_of_running running started'
        (not_stopped_concat going (by simp) (by simp)) unasked waits
    | shutdown =>
      have request : w.run Request.shutdown.events = { w with service := w.service.close } := by
        simp [Request.events, step, Service.shutdown, running, idle]
      rw [request]
      exact phase_of_ended (w := { w with service := w.service.close }) idle rfl
        (.inr ⟨asked, [], rfl, started⟩) es
    | drop =>
      have request : w.run Request.drop.events = { w with service.lifecycle := .ending } := by
        simp [Request.events, step, Service.drop, running]
      rw [request] at waits ⊢
      obtain ⟨site, same⟩ :=
        ending_run (w := { w with service.lifecycle := .ending }) idle rfl unasked waits
      rw [same]
      exact ⟨idle, .ended rfl (.inl (by simp))⟩
    | send ts =>
      obtain ⟨sent, queued⟩ := w.send_spec ts
      exact phase_of_running (by rw [queued]; exact running) started'
        (not_stopped_concat going (by simp) (by simp)) unasked waits

variable {config : Config} {site : Site}

theorem Paced.phase (h : Paced config site asked w) :
    w.service.pass = none ∧ Phase asked w ∧ ∃ es, w = (Watch.new config site).run es := by
  induction h with
  | new => exact ⟨rfl, .created rfl nofun nofun rfl rfl, [], rfl⟩
  | ask r es _ _ unasked waits ih =>
    obtain ⟨idle, phase, before, rfl⟩ := ih
    obtain ⟨idle', phase'⟩ := phase.ask idle unasked waits
    exact ⟨idle', phase', before ++ r.events ++ es, by simp only [run_append]⟩

theorem Phase.ended_iff (phase : Phase asked w) :
    w.service.lifecycle = .ended ↔ Stopped asked := by
  cases phase with
  | created created unstarted undropped _ _ =>
    exact ⟨fun ended => absurd (created.symm.trans ended) nofun,
      fun stopped => absurd stopped (not_stopped unstarted undropped)⟩
  | running running _ going =>
    exact ⟨fun ended => absurd (running.symm.trans ended) nofun,
      fun stopped => absurd stopped going⟩
  | ended ended stopped => exact ⟨fun _ => stopped, fun _ => ended⟩

theorem Phase.running_iff (phase : Phase asked w) :
    w.service.lifecycle = .running ↔ .start ∈ asked ∧ ¬ Stopped asked := by
  cases phase with
  | created created unstarted =>
    exact ⟨fun running => absurd (created.symm.trans running) nofun,
      fun started => absurd started.1 unstarted⟩
  | running running started going => exact ⟨fun _ => ⟨started, going⟩, fun _ => running⟩
  | ended ended stopped =>
    exact ⟨fun running => absurd (ended.symm.trans running) nofun,
      fun going => absurd stopped going.2⟩

/-- Before the start all that was accepted waits, and the loop has done nothing. -/
theorem Phase.fresh (phase : Phase asked w) (unstarted : .start ∉ asked)
    (undropped : .drop ∉ asked) : w.service.lifecycle = .created ∧
      w.service.queue = accepted w.notes ∧ w.notes.filter Note.ofLoop = [] := by
  cases phase with
  | created created _ _ kept quiet => exact ⟨created, kept, quiet⟩
  | running _ started => exact absurd started unstarted
  | ended _ stopped => exact absurd stopped (not_stopped unstarted undropped)

theorem Phase.start_again (phase : Phase asked w) (started : .start ∈ asked) :
    w.service.start = .error .alreadyStarted := by
  cases phase with
  | created _ unstarted => exact absurd started unstarted
  | running running => simp only [Service.start, running]
  | ended ended => simp only [Service.start, ended]

/-- A service that has been started runs or has ended, and the loop makes no more calls once it is
told to stop. -/
theorem Phase.silenced (phase : Phase asked w) (idle : w.service.pass = none) {e : Event}
    (stops : e = .shutdown ∧ .start ∈ asked ∨ e = .drop) (es : List Event) :
    calls ((w.step e).run es).notes = calls w.notes := by
  have silent (service : Service) (idle : service.pass = none)
      (halted : ¬ service.lifecycle.Alive) :
      calls (({ w with service } : Watch).run es).notes = calls w.notes :=
    silent_run idle halted es
  cases phase with
  | created created unstarted =>
    rcases stops with ⟨-, started⟩ | rfl
    · exact absurd started unstarted
    · simp only [step, Service.drop, created]
      exact silent _ idle id
  | running running =>
    rcases stops with ⟨rfl, -⟩ | rfl
    · simp only [step, Service.shutdown, running, idle]
      exact silent _ idle id
    · simp only [step, Service.drop, running]
      exact silent _ idle id
  | ended ended => exact silent_run idle (by rw [ended]; exact id) (e :: es)

/-- The first start serves all that was accepted before, at once. -/
theorem Paced.served (h : Paced config site asked w) (unstarted : .start ∉ asked)
    (undropped : .drop ∉ asked) (unasked : ∀ e ∈ es, e.Unasked)
    (waits : ((w.step .start).run es).Waits) :
    ((w.step .start).run es).service.queue = [] ∧
    batches ((w.step .start).run es).notes =
      (if accepted w.notes = [] then [] else [accepted w.notes]) ∧
    ((w.step .start).run es).notes.countP Note.isBegan =
      if Calls config.target (accepted w.notes) then 1 else 0 := by
  obtain ⟨-, phase, before, past⟩ := h.phase
  obtain ⟨created, kept, quiet⟩ := phase.fresh unstarted undropped
  have started : w.step .start = { w with service.lifecycle := .running } := by
    simp [step, Service.start, created]
  have running' : (w.step .start).service.lifecycle = .running := by rw [started]
  have running : ((w.step .start).run es).service.lifecycle = .running :=
    running_run (fun e he => (unasked e he).spares) running'
  have empty := ((waits_iff running).1 waits).2
  have none_yet : batches (w.step .start).notes = [] := by
    rw [started, ← batches_filter_ofLoop, quiet, batches_nil]
  have queue : (w.step .start).service.queue = accepted w.notes := by
    rw [started]
    exact kept
  have taken : batches ((w.step .start).run es).notes =
      if accepted w.notes = [] then [] else [accepted w.notes] := by
    rcases took_run running' unasked with ⟨same, none_taken⟩ | ⟨-, some_waited, taken⟩
    · rw [empty, queue] at same
      rw [none_taken, none_yet, if_pos same.symm]
    · rw [queue] at some_waited taken
      rw [taken, none_yet, if_neg some_waited, List.nil_append]
  have faithful : ((w.step .start).run es).Faithful config.target := by
    rw [past, ← run_cons, ← run_append] at running ⊢
    exact faithful_run (by rw [running]; trivial) rfl (faithful_new config site _)
  refine ⟨empty, taken, ?_⟩
  rw [faithful.passes, taken]
  split
  · next nothing => simp [nothing, Calls]
  · simp [List.countP_singleton]

end

end Watch

/-- Whatever is asked of a service, one thing at a time: its first start succeeds, and every other
is refused and changes nothing; the answer to a trigger depends on whether the service has been
dropped, or started and then shut down, and on how many triggers wait, of which there are never more
than there is room for; a shutdown before the start changes nothing, and the first start serves all
that was accepted before with at most one pass; a second shutdown changes nothing; and once the
service has been stopped it makes no call any more. After any request its loop comes to wait for the
next. -/
theorem paced_requests_orderly {config : Config} {site : Site} {asked : List Watch.Request}
    {w : Watch} (h : Watch.Paced config site asked w) : Watch.Orderly config asked w := by
  obtain ⟨idle, phase, before, past⟩ := h.phase
  have capacity (es : List Watch.Event) : (w.run es).service.capacity = max config.buffer 1 := by
    rw [Service.capacity, Watch.config_run, past, Watch.config_run]
    rfl
  have bounded (es : List Watch.Event) :
      (w.run es).service.queue.length ≤ (w.run es).service.capacity := by
    rw [past, ← Watch.run_append]
    exact Watch.bounded_run (Nat.zero_le _) _
  constructor
  case start =>
    intro unstarted undropped
    simp only [Service.start, (phase.fresh unstarted undropped).1]
  case start_again =>
    intro started
    have refused := phase.start_again started
    exact ⟨refused, by simp only [Watch.step, refused]⟩
  case send =>
    intro ahead t s
    obtain ⟨closed, full, sent, refused, queued⟩ :=
      Service.answers_of_bounded (bounded (Watch.Request.send ahead).events) t
    have ended_iff : s.lifecycle = .ended ↔ Watch.Stopped asked := by
      obtain ⟨sent, run⟩ := w.send_spec ahead
      simpa only [s, run] using phase.ended_iff
    rw [capacity, Ne, ended_iff] at full sent
    exact ⟨closed.trans ended_iff, full, sent, refused, queued⟩
  case bounded =>
    intro es
    rw [← capacity es]
    exact bounded es
  case shutdown_early =>
    intro unstarted
    exact Watch.shutdown_of_not_running fun running =>
      unstarted (phase.running_iff.1 running).1
  case kept =>
    intro unstarted undropped
    exact (phase.fresh unstarted undropped).2
  case served =>
    intro unstarted undropped es unasked waits
    exact h.served unstarted undropped unasked waits
  case shutdown_again =>
    intro es unasked waits
    obtain ⟨-, phase'⟩ := phase.ask idle (r := .shutdown) unasked waits
    refine Watch.shutdown_of_not_running fun running => ?_
    obtain ⟨started, going⟩ := phase'.running_iff.1 running
    exact going (.inr ⟨asked, [], rfl, by simpa using started⟩)
  case shutdown_silences =>
    intro started es
    exact phase.silenced idle (.inl ⟨rfl, started⟩) es
  case drop_silences =>
    intro es
    exact phase.silenced idle (.inr rfl) es
  case silent =>
    intro stopped es
    exact Watch.silent_run idle (by rw [phase.ended_iff.2 stopped]; exact id) es
  case settles =>
    intro r
    obtain ⟨n, waits⟩ := Watch.settles_of_idle (Watch.idle_request idle r)
    refine ⟨.replicate n .turn, fun e he => ?_, waits⟩
    rw [List.eq_of_mem_replicate he]
    trivial

/-- A service with room for two triggers, after a shutdown before its start and three triggers. -/
def Watch.overfull : Watch :=
  ((((Watch.new ⟨"agg", 2⟩ (.new (.single "agg") .empty)).run Watch.Request.shutdown.events).run
    []).run (Watch.Request.send [.target "other", .member "a", .member "b"]).events).run []

/-- The same service, after it has been started and shut down. -/
def Watch.halted : Watch :=
  (((Watch.overfull.run Watch.Request.start.events).run (.replicate 7 .turn)).run
    Watch.Request.shutdown.events).run []

/-- The start serves the two triggers that were accepted with one pass; after the shutdown the next
start is refused, and the next trigger finds the service closed. -/
theorem paced_requests_orderly_halted :
    (Watch.overfull.service.offer (.member "b")).1 = .full ∧
      Watch.Paced ⟨"agg", 2⟩ (.new (.single "agg") .empty)
        [.shutdown, .send [.target "other", .member "a", .member "b"], .start, .shutdown]
        Watch.halted ∧
      Watch.batches Watch.halted.notes = [[.target "other", .member "a"]] ∧
      (Watch.calls Watch.halted.notes).length = 3 ∧
      Watch.halted.service.start = .error .alreadyStarted ∧
      (Watch.halted.service.offer (.member "b")).1 = .closed := by
  have first : Watch.Paced ⟨"agg", 2⟩ (.new (.single "agg") .empty) [.shutdown]
      (((Watch.new ⟨"agg", 2⟩ (.new (.single "agg") .empty)).run
        Watch.Request.shutdown.events).run []) :=
    .ask .shutdown [] .new (by simp) (by simp) (Watch.waits_of_created rfl rfl)
  have early : Watch.Paced ⟨"agg", 2⟩ (.new (.single "agg") .empty)
      [.shutdown, .send [.target "other", .member "a", .member "b"]] Watch.overfull :=
    .ask (.send _) [] first (by simp) (by simp) (Watch.waits_of_created rfl rfl)
  have served : Watch.Paced ⟨"agg", 2⟩ (.new (.single "agg") .empty)
      [.shutdown, .send [.target "other", .member "a", .member "b"], .start]
      ((Watch.overfull.run Watch.Request.start.events).run (.replicate 7 .turn)) := by
    refine .ask .start (.replicate 7 .turn) early (by simp) (by decide) ?_
    exact (Watch.waits_iff (by decide +kernel)).2
      ⟨Option.isNone_iff_eq_none.1 (by decide +kernel), by decide +kernel⟩
  have stopped : Watch.Paced ⟨"agg", 2⟩ (.new (.single "agg") .empty)
      [.shutdown, .send [.target "other", .member "a", .member "b"], .start, .shutdown]
      Watch.halted := by
    refine .ask .shutdown [] served (by simp) (by simp) (Watch.waits_of_ended ?_ ?_)
    · exact Option.isNone_iff_eq_none.1 (by decide +kernel)
    · decide +kernel
  have orderly := paced_requests_orderly stopped
  refine ⟨by decide +kernel, stopped, by decide +kernel, by decide +kernel, ?_, ?_⟩
  · exact (orderly.start_again (by decide)).1
  · exact (orderly.send [] (.member "b")).1.2
      (.inr ⟨[.shutdown, .send _, .start], [], rfl, by decide⟩)

end FleetHealth

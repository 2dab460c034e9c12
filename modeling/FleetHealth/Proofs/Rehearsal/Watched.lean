import FleetHealth.Rehearsal.Machine
import FleetHealth.Proofs.Service.Watch

/-!
Rehearsals are watches.

Whatever a script does, in hooks or outside of them, takes the service and the site through a run of
a watch, so what holds of every watch holds in every rehearsal (`World.after_watched`). Between two
steps of a script the loop is at no pass, and if it runs it has emptied its queue.
-/

namespace FleetHealth.Rehearsal

namespace World

/-- A run of a watch takes the service and the site of one world to those of another. -/
def Leads (w w' : World) : Prop :=
  ∀ ns, ∃ es ns', (⟨w.service, w.site, ns⟩ : Watch).run es = ⟨w'.service, w'.site, ns'⟩

theorem Leads.of_eq {w w' : World} (service : w'.service = w.service) (site : w'.site = w.site) :
    w.Leads w' :=
  fun ns => ⟨[], ns, by rw [service, site, Watch.run_nil]⟩

theorem Leads.trans {w w' w'' : World} (h : w.Leads w') (h' : w'.Leads w'') : w.Leads w'' := by
  intro ns
  obtain ⟨es, ns', he⟩ := h ns
  obtain ⟨fs, ns'', hf⟩ := h' ns'
  exact ⟨es ++ fs, ns'', by rw [Watch.run_append, he, hf]⟩

theorem Leads.event {w w' : World} (e : Watch.Event)
    (h : ∀ ns, ((⟨w.service, w.site, ns⟩ : Watch).step e).service = w'.service ∧
      ((⟨w.service, w.site, ns⟩ : Watch).step e).site = w'.site) : w.Leads w' := by
  intro ns
  obtain ⟨service, site⟩ := h ns
  exact ⟨[e], ((⟨w.service, w.site, ns⟩ : Watch).step e).notes, by rw [← service, ← site]; rfl⟩

theorem Leads.change {w w' : World} (service : w'.service = w.service) : w.Leads w' :=
  .event (.change w'.site) fun _ => ⟨service.symm, rfl⟩

theorem leads_offerAll (w : World) (ts : List Trigger) :
    w.Leads { w with service := (w.service.offerAll ts).2 } := by
  induction ts generalizing w with
  | nil => exact .of_eq rfl rfl
  | cons t ts ih =>
    refine Leads.trans (.event (.offer t) fun ns => ?_) (ih { w with service := (w.service.offer t).2 })
    simp only [Watch.step, Watch.offer]
    split
    · next service h => exact ⟨by rw [h], rfl⟩
    · next answer service _ h => exact ⟨by rw [h], rfl⟩

/-- What a step does at once is a run of a watch. -/
theorem leads_act (w : World) (s : Step) : w.Leads (w.act s).1 := by
  cases s with
  | list | get | pass => exact .of_eq rfl rfl
  | upsert | failList | insert | unavailable | clock => exact .change rfl
  | onNext => exact .of_eq rfl rfl
  | remove name =>
    simp only [act]
    split
    · exact .change rfl
    · exact .of_eq rfl rfl
  | patch base status =>
    simp only [act]
    split
    · exact .change rfl
    · exact .of_eq rfl rfl
  | write fetched desired =>
    simp only [act]
    split <;> exact .of_eq rfl rfl
  | start =>
    simp only [act]
    split
    · next service h => exact .event .start fun ns => by simp [Watch.step, h]
    · exact .of_eq rfl rfl
  | shutdown => exact .event .shutdown fun _ => ⟨rfl, rfl⟩
  | send ts => exact leads_offerAll w ts
  | drop => exact .event .drop fun _ => ⟨rfl, rfl⟩

theorem pass_offerAll (s : Service) (ts : List Trigger) : (s.offerAll ts).2.pass = s.pass := by
  induction ts generalizing s with
  | nil => rfl
  | cons t ts ih =>
    simp only [Service.offerAll, ih, Service.offer]
    split
    · rfl
    all_goals split <;> rfl

/-- What a step does at once leaves the loop at its pass. -/
theorem pass_act (w : World) (s : Step) : (w.act s).1.service.pass = w.service.pass := by
  cases s with
  | send ts => exact pass_offerAll w.service ts
  | shutdown =>
    simp only [act, Service.shutdown]
    split <;> rfl
  | drop =>
    simp only [act, Service.drop]
    split <;> rfl
  | start =>
    simp only [act, Service.start]
    split
    · next service h =>
      split at h
      · cases h; rfl
      · cases h
    · rfl
  | remove | patch | write =>
    simp only [act]
    split <;> rfl
  | _ => rfl

/-- A pass that is moved on has made way for a hook, or has taken its step. -/
theorem movePass_cases (w : World) (p : Pass) (ready : Bool) :
    ((w.movePass p ready).2.1 = p ∧ (w.movePass p ready).1.site = w.site) ∨
    ((w.movePass p ready).2.1 = (p.step w.site).1 ∧
      (w.movePass p ready).1.site = (p.step w.site).2.1) := by
  have stepPass_eq (w : World) : (w.stepPass p).2 = (p.step w.site).1 ∧
      (w.stepPass p).1.site = (p.step w.site).2.1 := by
    refine ⟨rfl, ?_⟩
    simp only [stepPass, noteCall]
    split <;> rfl
  simp only [movePass]
  split
  · exact .inr (stepPass_eq _)
  · split
    · exact .inl ⟨rfl, rfl⟩
    · exact .inr (stepPass_eq w)
  · exact .inr (stepPass_eq w)

theorem moveWrite_service (w : World) (fetched : Target) (desired : Composite) (ready : Bool) :
    (w.moveWrite fetched desired ready).1.service = w.service := by
  unfold moveWrite
  split <;> rfl

end World

namespace Machine

/-- While the loop is at a pass, the machine has a frame for it. -/
def Attended (m : Machine) : Prop :=
  m.world.service.pass ≠ none → ∃ ready, Frame.serve ready ∈ m.frames

/-- A move that leaves the loop at its pass and its frame where it is. -/
theorem Attended.keep {m m' : Machine} (h : m.Attended)
    (pass : m'.world.service.pass = m.world.service.pass)
    (frames : ∀ ready, Frame.serve ready ∈ m.frames → Frame.serve ready ∈ m'.frames) :
    m'.Attended := by
  intro busy
  obtain ⟨ready, hr⟩ := h (pass ▸ busy)
  exact ⟨ready, frames ready hr⟩

theorem world_deliver (m : Machine) (r : Result) : (m.deliver r).world = m.world := by
  unfold deliver
  split <;> rfl

theorem serve_mem_deliver {m : Machine} {ready : Bool} (r : Result)
    (h : Frame.serve ready ∈ m.frames) : Frame.serve ready ∈ (m.deliver r).frames := by
  unfold deliver
  split
  · next hf =>
    rw [hf] at h
    simpa using h
  · exact h

theorem world_proceed (m : Machine) (next : World × (Result ⊕ Frame)) :
    (m.proceed next).world = next.1 := by
  obtain ⟨w, r | f⟩ := next
  · exact world_deliver _ r
  · rfl

theorem serve_mem_proceed {m : Machine} {ready : Bool} (next : World × (Result ⊕ Frame))
    (h : Frame.serve ready ∈ m.frames) : Frame.serve ready ∈ (m.proceed next).frames := by
  obtain ⟨w, r | f⟩ := next
  · exact serve_mem_deliver r h
  · exact List.mem_cons_of_mem f h

/-- Every move is a run of a watch, and keeps a frame for the pass that the loop is at. -/
theorem next_watched {m m' : Machine} (h : m.next = some m') :
    m.world.Leads m'.world ∧ (m.Attended → m'.Attended) := by
  unfold next at h
  split at h
  · next w result =>
    split at h
    · next wakes =>
      cases h
      refine ⟨.event .turn fun ns => ?_, fun _ _ => ⟨false, List.mem_cons_self ..⟩⟩
      simp [Watch.step, Watch.turn, wakes]
    · cases h
  · cases h
    refine ⟨.of_eq rfl rfl, fun attended => attended.keep rfl fun ready hr => ?_⟩
    simpa using hr
  · next w kind s todo results frames result =>
    cases h
    refine ⟨?_, fun attended => attended.keep ?_ fun ready hr => ?_⟩
    · rw [world_proceed]
      exact w.leads_act s
    · rw [world_proceed]
      exact w.pass_act s
    · exact serve_mem_proceed _ (by simpa using hr)
  · next w p ready frames result =>
    split at h
    · cases h
      refine ⟨?_, fun attended => attended.keep ?_ fun ready hr => ?_⟩
      · exact .of_eq (by rw [world_deliver]) (by rw [world_deliver])
      · rw [world_deliver]
      · exact serve_mem_deliver _ (by simpa using hr)
    · have service := movePass_service w p ready
      rcases hm : w.movePass p ready with ⟨w', p', ready', hook⟩
      rw [hm] at h service
      cases h
      refine ⟨.change service, fun attended => attended.keep (by rw [service]) fun ready hr => ?_⟩
      exact List.mem_append_right _ (List.mem_cons_of_mem _ (by simpa using hr))
  · next w fetched desired ready frames result =>
    have service := w.moveWrite_service fetched desired ready
    split at h
    · next w' r hm =>
      rw [hm] at service
      cases h
      refine ⟨?_, fun attended => attended.keep ?_ fun ready hr => ?_⟩
      · exact .change (by rw [world_deliver, service])
      · rw [world_deliver, service]
      · exact serve_mem_deliver _ (by simpa using hr)
    · next w' hook hm =>
      rw [hm] at service
      cases h
      refine ⟨.change service, fun attended => attended.keep (by rw [service]) fun ready hr => ?_⟩
      exact List.mem_cons_of_mem _ (List.mem_cons_of_mem _ (by simpa using hr))
  · next w ready frames result =>
    split at h
    · next idle =>
      cases h
      exact ⟨.of_eq rfl rfl, fun _ busy => absurd idle busy⟩
    · next p active =>
      split at h
      · next r hr =>
        cases h
        refine ⟨.event .turn fun ns => ?_, fun _ busy => absurd rfl busy⟩
        simp [Watch.step, Watch.turn, Service.canWake, Service.advance, active, hr]
      · next going =>
        have service := movePass_service w p ready
        have moved := w.movePass_cases p ready
        rcases hm : w.movePass p ready with ⟨w', p', ready', hook⟩
        rw [hm] at h service moved
        dsimp only at service moved
        cases h
        refine ⟨?_, fun _ _ => ⟨ready', by simp⟩⟩
        rcases moved with ⟨rfl, site⟩ | ⟨rfl, site⟩
        · exact .of_eq (by rw [service, ← active]) site
        · refine .event .turn fun ns => ?_
          simp [Watch.step, Watch.turn, Service.canWake, Service.advance, active, going, service,
            site]

theorem settle_of_next_eq_none {m : Machine} (h : m.next = none) : m.settle = m := by
  rw [settle]
  split
  · rfl
  · next h' => rw [h] at h'; cases h'

theorem settle_of_next_eq_some {m m' : Machine} (h : m.next = some m') : m.settle = m'.settle := by
  rw [settle]
  split
  · next h' => rw [h] at h'; cases h'
  · next h' => rw [h] at h'; cases h'; rfl

theorem settle_watched (m : Machine) :
    m.world.Leads m.settle.world ∧ (m.Attended → m.settle.Attended) ∧ m.settle.next = none := by
  induction m using settle.induct with
  | case1 m rest =>
    rw [settle_of_next_eq_none rest]
    exact ⟨.of_eq rfl rfl, id, rest⟩
  | case2 m m' h _ ih =>
    rw [settle_of_next_eq_some h]
    obtain ⟨leads, attended⟩ := next_watched h
    obtain ⟨leads', attended', rest⟩ := ih
    exact ⟨leads.trans leads', attended' ∘ attended, rest⟩

/-- When no move is left, no activity is, and the loop has nothing to take. -/
theorem of_next_eq_none {m : Machine} (h : m.next = none) :
    m.frames = [] ∧ m.world.service.canWake = false := by
  unfold next at h
  split at h
  · split at h
    · cases h
    · next sleeps => exact ⟨rfl, by simpa using sleeps⟩
  · cases h
  · cases h
  · split at h <;> cases h
  · split at h <;> cases h
  · split at h
    · cases h
    · split at h <;> cases h

end Machine

namespace World

/-- What holds of the service between two steps of a script: its loop waits. -/
structure Rests (w : World) : Prop where
  idle : w.service.pass = none
  empty : w.service.lifecycle = .running → w.service.queue = []

theorem rests_rest {w : World} (idle : w.service.pass = none) (sleeps : w.service.canWake = false) :
    ({ w with service := w.service.rest } : World).Rests := by
  obtain ⟨site, ⟨config, lifecycle, queue, pass⟩, hooks, notes⟩ := w
  cases lifecycle with
  | running =>
    have waits : pass = none → queue = [] := by simpa [Service.canWake] using sleeps
    exact ⟨idle, fun _ => waits idle⟩
  | created | ending | ended =>
    refine ⟨idle, fun running => ?_⟩
    cases running

/-- A step of a script is a run of a watch, and ends when the loop waits. -/
theorem take_watched (w : World) (s : Step) (rests : w.Rests) :
    w.Leads (w.take s).1 ∧ (w.take s).1.Rests := by
  let m := Machine.begin { w with notes := [] } s
  have hm : m.world = (({ w with notes := [] } : World).act s).1 := Machine.world_proceed _ _
  have begun : w.Leads m.world := hm ▸ leads_act { w with notes := [] } s
  obtain ⟨settled, attended, rest⟩ := m.settle_watched
  obtain ⟨frames, sleeps⟩ := Machine.of_next_eq_none rest
  have idle : m.settle.world.service.pass = none := by
    have idle_first : m.world.service.pass = none := by
      rw [hm, pass_act]
      exact rests.idle
    refine Classical.byContradiction fun busy => ?_
    obtain ⟨ready, hr⟩ := attended (fun busy => absurd idle_first busy) busy
    simp [frames] at hr
  refine ⟨(begun.trans settled).trans (.event .turn fun ns => ?_), rests_rest idle sleeps⟩
  simp [Watch.step, Watch.turn, sleeps, idle, take, m]

/-- The world after these steps. -/
def after (w : World) (ss : List Step) : World := ss.foldl (fun w s => (w.take s).1) w

theorem leads_after (w : World) (ss : List Step) (rests : w.Rests) :
    w.Leads (w.after ss) ∧ (w.after ss).Rests := by
  induction ss generalizing w with
  | nil => exact ⟨.of_eq rfl rfl, rests⟩
  | cons s ss ih =>
    obtain ⟨leads, rests'⟩ := w.take_watched s rests
    obtain ⟨leads', rests''⟩ := ih (w.take s).1 rests'
    exact ⟨leads.trans leads', rests''⟩

/-- Wherever a script takes the service and the site, a run of a watch takes them as well, and at the
end of the script the loop waits. -/
theorem after_watched (store : Store) (roster : Roster) (config : Config) (ss : List Step) :
    ((new store roster config).after ss).Rests ∧ ∃ es notes,
      (Watch.new config (.new store roster)).run es =
        ⟨((new store roster config).after ss).service, ((new store roster config).after ss).site,
          notes⟩ := by
  obtain ⟨leads, rests⟩ := leads_after (new store roster config) ss ⟨rfl, nofun⟩
  exact ⟨rests, leads []⟩

end World

end FleetHealth.Rehearsal

import FleetHealth.Proofs.Pass.Carried
import FleetHealth.Proofs.Service.Watch

/-!
A service that waits has said what its fleet calls for.

As long as nobody else writes the target, all that a pass of the service knows is about the stored
target (`Watch.Sole`), so its write never fails. A trigger that was accepted after the last change
of the fleet keeps the service due (`Watch.Due`): the trigger still waits, or the pass under way has
yet to list the members, or what it is about to write, or what is stored, says what they call for.
When the loop waits on an empty queue, only the last of these is left.
-/

namespace FleetHealth

/-! ### A pass over a target that nobody else writes -/

namespace Pass

/-- All that the pass knows is about this target, and it lacks nothing. -/
inductive Abreast (name : String) (u : Target) : Pass → Prop
  | fetching : Abreast name u (.fetching name)
  | timing : Abreast name u (.timing u)
  | listing (now : Time.Instant) : Abreast name u (.listing u now)
  | writing (desired : Composite) (result : PassResult) :
    Abreast name u (.writing u desired result)
  | finished (result : PassResult) : Abreast name u (.finished result)

/-- Left to itself, the pass ends with a target that says what the listing calls for. -/
def Heads (l : Listing) (u : Target) : Pass → Prop
  | fetching _ | timing _ | listing .. => True
  | writing _ desired _ => desired.contents = l.contents
  | finished _ => u.Tells l

/-- A step keeps the pass abreast of the target, and on its way. -/
theorem Abreast.step {name : String} {u : Target} {p : Pass} {s : Site} (h : p.Abreast name u)
    (up : s.store.unavailable = false) (held : s.store.find? name = some u) :
    ∃ store v, (p.step s).2.1 = { s with store } ∧ store.unavailable = false ∧
      store.find? name = some v ∧ (p.step s).1.Abreast name v ∧
      (p.Heads s.list u → (p.step s).1.Heads s.list v) := by
  cases h with
  | fetching =>
    have answer : s.store.get name = .ok (some u) := by rw [Store.get_of_available up, held]
    refine ⟨s.store, u, rfl, up, held, ?_, ?_⟩
    · simpa only [Pass.step, answer] using .timing
    · intro _
      simp only [Pass.step, answer, fetched, Heads]
  | timing => exact ⟨s.store, u, rfl, up, held, .listing s.clock, fun _ => trivial⟩
  | listing now =>
    refine ⟨s.store, u, rfl, up, held, ?_, ?_⟩ <;>
      simp only [Pass.step, listed_eq, Target.carries_composite_iff]
    · split
      · exact .finished _
      · exact .writing _ _
    · intro _
      split
      · next told => exact told
      · exact s.list.contents_composite u.status now
  | writing desired result =>
    have found : s.store.find? u.name = some u := Store.name_of_find? held ▸ held
    refine ⟨s.store.afterWrite u desired, Store.written u desired, ?_, up,
      Store.find?_afterWrite_self held, .finished result, Store.written_tells⟩
    simp [Pass.step, Site.patch, Store.patch_of_version_eq up found rfl]
  | finished result => exact ⟨s.store, u, rfl, up, held, .finished result, id⟩

end Pass

namespace Watch

/-! ### What is taken for granted of a run -/

/-- Something holds at each point of a run, of the watch there and of what happens next. -/
def Along (P : Watch → Event → Prop) (w : Watch) : List Event → Prop
  | [] => True
  | e :: es => P w e ∧ (w.step e).Along P es

instance instDecidableAlong (P : Watch → Event → Prop) [∀ w e, Decidable (P w e)] (w : Watch) :
    (es : List Event) → Decidable (w.Along P es)
  | [] => inferInstanceAs (Decidable True)
  | e :: es => @instDecidableAnd _ _ _ (instDecidableAlong P (w.step e) es)

/-- A change of the site leaves the target alone, the store available and the listing in order. The
members may change in any way, and so may the clock. -/
def Calm (w : Watch) : Event → Prop
  | .change site => site.store.unavailable = false ∧ site.outage = none ∧
      site.store.find? w.service.config.target = w.site.store.find? w.service.config.target
  | _ => True

/-- The fleet stays as it is. -/
def KeepsFleet (w : Watch) (e : Event) : Prop := (w.step e).site.roster = w.site.roster

instance (w : Watch) : (e : Event) → Decidable (w.Calm e)
  | .change site =>
    inferInstanceAs (Decidable (site.store.unavailable = false ∧ site.outage = none ∧
      site.store.find? w.service.config.target = w.site.store.find? w.service.config.target))
  | .offer _ | .start | .shutdown | .drop | .turn => inferInstanceAs (Decidable True)

instance (w : Watch) (e : Event) : Decidable (w.KeepsFleet e) :=
  inferInstanceAs (Decidable ((w.step e).site.roster = w.site.roster))

theorem along_append {P : Watch → Event → Prop} {w : Watch} {es fs : List Event} :
    w.Along P (es ++ fs) ↔ w.Along P es ∧ (w.run es).Along P fs := by
  induction es generalizing w with
  | nil => simp [Along]
  | cons e es ih => simp [Along, ih, and_assoc]

/-! ### The site of a watch -/

/-- Only a change of the site, and a pass that moves on, touch the site. -/
theorem site_step (w : Watch) (e : Event) :
    (w.step e).site = w.site ∨ e = .change (w.step e).site ∨
      (w.step e).service.pass ≠ w.service.pass := by
  cases e with
  | change site => exact .inr (.inl rfl)
  | shutdown | drop => exact .inl rfl
  | start =>
    simp only [step]
    split <;> exact .inl rfl
  | offer t =>
    simp only [step, offer]
    split <;> exact .inl rfl
  | turn =>
    simp only [step, turn]
    split
    · exact .inl rfl
    · split
      · exact .inl rfl
      · unfold Service.advance
        cases hp : w.service.pass with
        | none => exact .inl rfl
        | some p =>
          cases hr : p.result? with
          | some r => simp [hr]
          | none =>
            refine .inr (.inr fun same => ?_)
            have nearer := Pass.stepsLeft_step (s := w.site) hr
            simp only [hr, Option.some.injEq] at same
            rw [same] at nearer
            exact absurd nearer (Nat.lt_irrefl _)

/-! ### What a step keeps -/

/-- The store is available and holds this target, the members can be listed, and what the pass of
the service knows is about this target. -/
structure Sole (w : Watch) (u : Target) : Prop where
  up : w.site.store.unavailable = false
  listed : w.site.outage = none
  held : w.site.store.find? w.service.config.target = some u
  abreast : ∀ p ∈ w.service.pass, p.Abreast w.service.config.target u

/-- What is stored says, or will be made to say, what the members call for. -/
def Due (w : Watch) (u : Target) : Prop :=
  (∃ t ∈ w.service.queue, t.concerns w.service.config.target = true) ∨
    match w.service.pass with
    | none => u.Tells w.site.list
    | some p => p.Heads w.site.list u

variable {w w' : Watch} {e : Event} {u : Target}

/-- A trigger that calls for a pass makes the service due. -/
theorem due_of_accepted {t : Trigger} (called : t.concerns w.service.config.target = true)
    (sent : (w.service.offer t).1 = .sent) (u : Target) : (w.step (.offer t)).Due u := by
  left
  simp only [step, offer]
  split
  · next service h =>
    refine ⟨t, ?_, ?_⟩
    · unfold Service.offer at h
      split at h
      · cases h
      all_goals split at h <;> cases h; simp
    · unfold Service.offer at h
      split at h
      · cases h
      all_goals split at h <;> cases h; exact called
  · next answer service refused h =>
    rw [h] at sent
    exact absurd sent refused

/-- The pass of the service is the only one to write, and a service that is due stays so while the
fleet stays as it is. -/
theorem Sole.step (h : w.Sole u) (calm : w.Calm e) (alive : (w.step e).service.lifecycle.Alive) :
    ∃ v, (w.step e).Sole v ∧ (w.KeepsFleet e → w.Due u → (w.step e).Due v) := by
  obtain ⟨up, listed, held, abreast⟩ := h
  have site := site_step w e
  have effect := effect_step w e
  unfold KeepsFleet
  generalize w.step e = w' at site effect alive
  cases effect with
  | lost => exact alive.elim
  | still lifecycle site' =>
    rcases site with rfl | rfl | moved
    · exact ⟨u, ⟨up, listed, held, abreast⟩, fun _ due => due⟩
    · obtain ⟨up', listed', held'⟩ : site'.store.unavailable = false ∧ site'.outage = none ∧
          site'.store.find? w.service.config.target = w.site.store.find? w.service.config.target :=
        calm
      have fleet (keeps : site'.roster = w.site.roster) : site'.list = w.site.list := by
        simp only [Site.list, listed, listed', keeps]
      refine ⟨u, ⟨up', listed', held'.trans held, abreast⟩, fun keeps due => ?_⟩
      unfold Due at due ⊢
      rwa [fleet keeps]
    · exact absurd rfl moved
  | accept t _ =>
    refine ⟨u, ⟨up, listed, held, abreast⟩, fun _ due => due.imp_left ?_⟩
    rintro ⟨t', waits, called⟩
    exact ⟨t', List.mem_append_left _ waits, called⟩
  | ignore idle _ uncalled =>
    refine ⟨u, ⟨up, listed, held, abreast⟩, fun _ due => ?_⟩
    rcases due with ⟨t, waits, called⟩ | told
    · rw [List.any_eq_false] at uncalled
      exact absurd called (uncalled t waits)
    · exact .inr told
  | begin idle _ =>
    refine ⟨u, ⟨up, listed, held, ?_⟩, fun _ _ => .inr trivial⟩
    intro p hp
    cases hp
    exact .fetching
  | move p active going =>
    obtain ⟨store, v, hs, up', held', abreast', heads⟩ := (abreast p active).step up held
    rw [hs]
    refine ⟨v, ⟨up', listed, held', ?_⟩, fun _ due => due.imp_right fun h => ?_⟩
    · intro q hq
      cases hq
      exact abreast'
    · rw [active] at h
      exact heads h
  | leave r active =>
    refine ⟨u, ⟨up, listed, held, fun p hp => (Option.not_mem_none p hp).elim⟩, fun _ due => ?_⟩
    refine due.imp_right fun h => ?_
    rw [active] at h
    exact h

theorem Sole.run {es : List Event} (h : w.Sole u) (calm : w.Along Calm es)
    (alive : (w.run es).service.lifecycle.Alive) :
    ∃ v, (w.run es).Sole v ∧ (w.Along KeepsFleet es → w.Due u → (w.run es).Due v) := by
  induction es generalizing w u with
  | nil => exact ⟨u, h, fun _ due => due⟩
  | cons e es ih =>
    obtain ⟨v, sole, due⟩ := h.step calm.1 (alive_of_run alive)
    obtain ⟨v', sole', due'⟩ := ih sole calm.2 alive
    exact ⟨v', sole', fun keeps d => due' keeps.2 (due keeps.1 d)⟩

end Watch

/-- A service over an available store that holds its target, whose members can always be listed and
whose target nobody else writes: whenever it has been started, has not been stopped and waits on an
empty queue, and a trigger that calls for a pass was accepted after the last change of the fleet,
the target says what the members call for as they are now. Members may be put in and taken out, and
triggers may come, between any two steps of a pass and before the start; the clock may do as it
likes. -/
theorem idle_target_up_to_date {config : Config} {site : Site} {u : Target} {t : Trigger}
    {before after : List Watch.Event} (up : site.store.unavailable = false)
    (listed : site.outage = none) (held : site.store.find? config.target = some u)
    (calm : (Watch.new config site).Along Watch.Calm (before ++ .offer t :: after))
    (called : t.concerns config.target = true)
    (sent : (((Watch.new config site).run before).service.offer t).1 = .sent)
    (last : ((Watch.new config site).run (before ++ [.offer t])).Along Watch.KeepsFleet after)
    (running : ((Watch.new config site).run (before ++ .offer t :: after)).service.lifecycle =
      .running)
    (idle : ((Watch.new config site).run (before ++ .offer t :: after)).service.pass = none)
    (empty : ((Watch.new config site).run (before ++ .offer t :: after)).service.queue = []) :
    let w := (Watch.new config site).run (before ++ .offer t :: after)
    ∃ v ∈ w.site.store.find? config.target, ∃ c ∈ v.status,
      c.contents = Listing.contents (.ok w.site.roster.members) := by
  intro w
  have sole_new : (Watch.new config site).Sole u :=
    ⟨up, listed, held, fun p hp => (Option.not_mem_none p hp).elim⟩
  have alive : w.service.lifecycle.Alive := by
    rw [running]
    trivial
  have split : w = (((Watch.new config site).run before).step (.offer t)).run after :=
    Watch.run_append _ before _
  have alive_before := Watch.alive_of_run (split ▸ alive)
  obtain ⟨calm₁, calm_offer, calm₂⟩ := Watch.along_append.1 calm
  obtain ⟨u₁, sole₁, -⟩ := sole_new.run calm₁ ((Watch.effect_step _ _).alive alive_before)
  obtain ⟨u₂, sole₂, -⟩ := sole₁.step calm_offer alive_before
  -- from the acceptance on the service is due, up to the end
  have due : (((Watch.new config site).run before).step (.offer t)).Due u₂ :=
    Watch.due_of_accepted (by rw [Watch.config_run]; exact called) sent u₂
  obtain ⟨v, sole, due_last⟩ := sole₂.run calm₂ (split ▸ alive)
  rw [Watch.run_append] at last
  rw [← split] at sole due_last
  have target : w.service.config.target = config.target := by
    rw [Watch.config_run]
    rfl
  refine ⟨v, target ▸ sole.held, ?_⟩
  rcases due_last last due with ⟨t', waits, -⟩ | told
  · rw [empty] at waits
    cases waits
  · rw [idle] at told
    have list : w.site.list = .ok w.site.roster.members := by
      simp only [Site.list, sole.listed]
    rw [list] at told
    exact told

/-- Triggers before the start; then, while the pass that they called for is about to write that
there are no members, a member that fails is put in. -/
def beforeCall : List Watch.Event :=
  [.offer (.target "other"), .offer (.member "a"), .start, .turn, .turn, .turn, .turn,
    .change { Site.new (.single "agg") .empty with
      roster := ⟨[⟨"a", ⟨[.installed .no .applyFailed]⟩⟩]⟩ }]

/-- The late write, the pass that the next trigger calls for, and a trigger that calls for none. -/
def afterCall : List Watch.Event :=
  [.turn, .turn, .turn, .turn, .turn, .offer (.target "other"), .turn, .turn, .turn, .turn]

/-- The second pass makes up for what the first one wrote too late. -/
theorem idle_target_up_to_date_afterCall :
    let w := (Watch.new ⟨"agg", 2⟩ (.new (.single "agg") .empty)).run
      (beforeCall ++ .offer (.member "a") :: afterCall)
    w.service.lifecycle = .running ∧ w.service.pass.isNone = true ∧ w.service.queue = [] ∧
      w.site.store.patchCount = 2 ∧
      w.site.roster.members = [⟨"a", ⟨[.installed .no .applyFailed]⟩⟩] ∧
      ∃ v ∈ w.site.store.find? "agg", ∃ c ∈ v.status,
        c.contents = Listing.contents (.ok w.site.roster.members) := by
  refine ⟨by decide +kernel, by decide +kernel, by decide +kernel, by decide +kernel,
    by decide +kernel, ?_⟩
  have held : (Store.single "agg").find? "agg" = some (.new "agg") := by decide
  refine idle_target_up_to_date (t := .member "a") rfl rfl held ?calm rfl ?sent ?last ?running
    ?idle ?empty
  case idle => exact Option.isNone_iff_eq_none.1 (by decide +kernel)
  all_goals decide +kernel

end FleetHealth

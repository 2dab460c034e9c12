import FleetHealth.Proofs.Race.Basic

/-!
All that a step of a race can do to the store.

The invariant is `Race.Fit`: whatever a pass has fetched is a past target of the store, and what it
is about to write follows from that target, the time that it read and the listing that it heard. A
pass whose write succeeds has therefore fetched the very target that it writes over. With that,
`Race.effect_step` says once what a step does to the store and which deed it notes down, and the
statements about runs argue from it alone.
-/

namespace FleetHealth

open FleetHealth.Time (Instant)

/-- What the racer knows is about a past target of the store, and consistent. -/
inductive Racer.Fits (name : String) (store : Store) : Racer → Prop
  | fetching {read : Option Instant} {heard : Option Listing} :
    Fits name store ⟨.fetching name, read, heard⟩
  | timing {t : Target} {read : Option Instant} {heard : Option Listing}
    (past : store.Past name t) : Fits name store ⟨.timing t, read, heard⟩
  | listing {t : Target} {now : Instant} {heard : Option Listing}
    (past : store.Past name t) : Fits name store ⟨.listing t now, some now, heard⟩
  | writing {t : Target} {now : Instant} {answer : Listing} {result : PassResult}
    (past : store.Past name t) (differs : t.status ≠ some (answer.composite t.status now)) :
    Fits name store ⟨.writing t (answer.composite t.status now) result, some now, some answer⟩
  | finished {result : PassResult} {read : Option Instant} {heard : Option Listing} :
    Fits name store ⟨.finished result, read, heard⟩

namespace Racer.Fits

variable {name : String} {store store' : Store} {x : Racer}

theorem later (h : Fits name store x) (l : Store.Later name store store') :
    Fits name store' x := by
  cases h with
  | fetching => exact .fetching
  | timing past => exact .timing (past.later l)
  | listing past => exact .listing (past.later l)
  | writing past differs => exact .writing (past.later l) differs
  | finished => exact .finished

/-- A step keeps a racer consistent. -/
theorem next {s : Site} (h : Fits name s.store x) : Fits name s.store (x.next s) := by
  cases h with
  | @fetching read heard =>
    simp only [Racer.next, Pass.step]
    cases hg : s.store.get name with
    | error e => exact .finished
    | ok found =>
      cases found with
      | none => exact .finished
      | some t => exact .timing (Store.past_of_find? (Store.get_eq_ok_some_iff.1 hg).2)
  | timing past => exact .listing past
  | @listing t now heard past =>
    simp only [Racer.next, Pass.step, Pass.listed_eq]
    by_cases same : t.carries (s.list.composite t.status now) = true
    · rw [if_pos same]
      exact .finished
    · rw [if_neg same]
      exact .writing past (mt Target.carries_iff.2 same)
  | writing past differs => exact .finished
  | finished => exact .finished

end Racer.Fits

namespace Race

/-- Every racer fits the store. -/
def Fit (r : Race) : Prop := ∀ x ∈ r.racers, x.Fits r.name r.site.store

/-- What an event does to the store, and the deed that is noted down. -/
inductive Effect (r : Race) : Event → Race → Prop
  /-- At most the availability of the store changes. -/
  | none {e : Event} {r' : Race} (deeds : r'.deeds = r.deeds)
    (store : r'.site.store.online = r.site.store.online) : Effect r e r'
  /-- A pass writes over the target that it has fetched, which is still the stored one. -/
  | pass {i : Nat} {r' : Race} (t : Target) (answer : Listing) (now : Instant) (result : PassResult)
    (racer : (⟨.writing t (answer.composite t.status now) result, some now, some answer⟩ : Racer) ∈
      r.racers)
    (stored : r.site.store.find? r.name = some t)
    (differs : t.status ≠ some (answer.composite t.status now))
    (deeds : r'.deeds = r.deeds ++ [.pass answer now (answer.composite t.status now)])
    (store : r'.site.store = r.site.store.afterWrite t (answer.composite t.status now)) :
    Effect r (.move i) r'
  | patch {base : Target} {status : Composite} {r' : Race} (stored : Target)
    (found : r.site.store.find? base.name = some stored) (version : stored.version = base.version)
    (deeds : r'.deeds = r.deeds ++ [.patch base status])
    (store : r'.site.store = r.site.store.afterWrite stored status) :
    Effect r (.patch base status) r'
  | insert {t : Target} {r' : Race} (deeds : r'.deeds = r.deeds ++ [.insert t])
    (store : r'.site.store = r.site.store.insert t) : Effect r (.insert t) r'

/-- A racer that is not about to write leaves the store alone. -/
theorem effect_move_idle {r : Race} {i : Nat} {x : Racer} (hx : r.racers[i]? = some x)
    (site : (x.pass.step r.site).2.1 = r.site) (deed : x.deed? r.site = Option.none) :
    Effect r (.move i) (r.step (.move i)) := by
  apply Effect.none <;> simp [step, hx, site, deed]

theorem effect_move {r : Race} {i : Nat} {x : Racer} (hx : r.racers[i]? = some x)
    (h : x.Fits r.name r.site.store) : Effect r (.move i) (r.step (.move i)) := by
  cases h with
  | fetching | timing | listing | finished => exact effect_move_idle hx rfl rfl
  | @writing t now answer result past differs =>
    cases hp : r.site.store.patch t (answer.composite t.status now) with
    | error e =>
      refine effect_move_idle hx ?_ ?_
      · simp [Pass.step, Site.patch, hp]
      · simp [Racer.deed?, hp]
    | ok written =>
      obtain ⟨u, store⟩ := written
      obtain ⟨up, stored, hf, hv, rfl, rfl⟩ := Store.patch_eq_ok_iff.1 hp
      rw [past.1] at hf
      -- the versions agree, so nothing has come between the fetch and the write
      have heq := past.eq_of_version hf hv
      subst heq
      refine .pass stored answer now result (List.mem_of_getElem? hx) hf differs ?_ ?_
      · simp [step, hx, Racer.deed?, hp]
      · simp [step, hx, Pass.step, Site.patch, hp]

theorem effect_step {r : Race} (fit : r.Fit) (e : Event) : Effect r e (r.step e) := by
  cases e with
  | enter | fleet | outage | unavailable | clock => exact .none rfl rfl
  | move i =>
    cases hx : r.racers[i]? with
    | none => exact .none (by simp [step, hx]) (by simp [step, hx])
    | some x => exact effect_move hx (fit x (List.mem_of_getElem? hx))
  | patch base status =>
    cases hp : r.site.store.patch base status with
    | error e => exact .none (by simp [step, hp]) (by simp [step, hp])
    | ok written =>
      obtain ⟨u, store⟩ := written
      obtain ⟨up, stored, hf, hv, rfl, rfl⟩ := Store.patch_eq_ok_iff.1 hp
      exact .patch stored hf hv (by simp [step, hp]) (by simp [step, hp])
  | insert t => exact .insert rfl rfl

/-- In a lawful event the target stays or is renewed. -/
theorem later_step {r : Race} {e : Event} (fit : r.Fit) (lawful : r.Lawful e) :
    Store.Later r.name r.site.store (r.step e).site.store := by
  obtain ⟨same | room, renews⟩ := lawful
  · exact Store.Later.of_find?_eq same
  · cases effect_step fit e with
    | none _ store =>
      apply Store.Later.of_find?_eq
      rw [← Store.find?_online, store, Store.find?_online]
    | pass t answer now result _ stored _ _ store =>
      rw [store]
      exact Store.later_afterWrite (Store.name_of_find? stored ▸ stored) room
    | patch stored found _ _ store =>
      rw [store]
      exact Store.later_afterWrite (Store.name_of_find? found ▸ found) room
    | insert _ store =>
      rw [store]
      exact Store.later_insert renews

/-- A racer after an event is one from before it, a new one, or one that took its step. -/
theorem mem_racers_step {r : Race} {e : Event} {y : Racer} (h : y ∈ (r.step e).racers) :
    y ∈ r.racers ∨ y = .new r.name ∨ ∃ x ∈ r.racers, y = x.next r.site := by
  cases e with
  | enter =>
    rcases List.mem_append.1 h with h | h
    · exact .inl h
    · exact .inr (.inl (List.mem_singleton.1 h))
  | move i =>
    cases hx : r.racers[i]? with
    | none => exact .inl (by simpa [step, hx] using h)
    | some x =>
      have h : y ∈ r.racers.set i (x.next r.site) := by simpa [step, hx] using h
      rcases List.mem_or_eq_of_mem_set h with h | rfl
      · exact .inl h
      · exact .inr (.inr ⟨x, List.mem_of_getElem? hx, rfl⟩)
  | fleet | outage | unavailable | clock | insert => exact .inl h
  | patch base status =>
    cases hp : r.site.store.patch base status <;> exact .inl (by simpa [step, hp] using h)

theorem fit_new (name : String) (s : Site) : (Race.new name s).Fit :=
  fun _ hx => (List.not_mem_nil hx).elim

/-- Lawful events keep the racers in step with the store. -/
theorem fit_step {r : Race} {e : Event} (lawful : r.Lawful e) (fit : r.Fit) : (r.step e).Fit := by
  have later := later_step fit lawful
  intro y hy
  rw [name_step]
  rcases mem_racers_step hy with hy | rfl | ⟨x, hx, rfl⟩
  · exact (fit y hy).later later
  · exact .fetching
  · exact (fit x hx).next.later later

end Race

end FleetHealth

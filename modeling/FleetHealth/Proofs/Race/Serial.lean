import FleetHealth.Proofs.Race.Effect

/-!
Races are serializable.

The deeds of a race, performed one after the other, each at once, lead to the same store: a pass
that wrote might as well have run without interruption at the moment of its write, given the listing
and the time that it had. What did not take effect leaves no trace.
-/

namespace FleetHealth

open FleetHealth.Time (Instant)

/-! ### Deeds performed at once -/

/-- A site at which a pass is given this answer and reads this time. -/
def Site.answering (store : Store) (answer : Listing) (now : Instant) : Site :=
  match answer with
  | .ok ms => ⟨store, ⟨ms⟩, none, now⟩
  | .error text => ⟨store, .empty, some text, now⟩

@[simp] theorem Site.store_answering (store : Store) (answer : Listing) (now : Instant) :
    (Site.answering store answer now).store = store := by
  cases answer <;> rfl

@[simp] theorem Site.list_answering (store : Store) (answer : Listing) (now : Instant) :
    (Site.answering store answer now).list = answer := by
  cases answer <;> rfl

@[simp] theorem Site.clock_answering (store : Store) (answer : Listing) (now : Instant) :
    (Site.answering store answer now).clock = now := by
  cases answer <;> rfl

/-- The store after a deed that is performed at once; a pass runs without interruption. -/
def Deed.perform (name : String) (store : Store) : Deed → Store
  | .pass answer now _ => ((Site.answering store answer now).pass name).2.store
  | .patch base status =>
    match store.patch base status with
    | .ok (_, store') => store'
    | .error _ => store
  | .insert t => store.insert t

/-- The store after deeds that are performed one after the other. -/
def Deed.serial (name : String) (store : Store) (ds : List Deed) : Store :=
  ds.foldl (perform name) store

/-- Whether the deed is a write, of a pass or direct. -/
def Deed.isWrite : Deed → Bool
  | .pass .. | .patch .. => true
  | .insert _ => false

theorem Deed.serial_concat (name : String) (store : Store) (ds : List Deed) (d : Deed) :
    serial name store (ds ++ [d]) = d.perform name (serial name store ds) := by
  simp [serial]

/-- A pass over a target that does not carry what the pass comes to writes it. -/
theorem Deed.perform_pass {store : Store} {name : String} {t : Target} (up : store.unavailable = false)
    (found : store.find? name = some t) (answer : Listing) (now : Instant) (written : Composite)
    (differs : t.status ≠ some (answer.composite t.status now)) :
    (Deed.pass answer now written).perform name store =
      store.afterWrite t (answer.composite t.status now) := by
  have up' : (Site.answering store answer now).store.unavailable = false := by
    rwa [Site.store_answering]
  have found' : (Site.answering store answer now).store.find? name = some t := by
    rwa [Site.store_answering]
  rw [Deed.perform, Site.pass_eq up' found']
  simp only [Site.store_answering, Site.list_answering, Site.clock_answering]
  rw [Store.update_of_find? up found, if_neg differs]

/-- A direct write that finds its version writes. -/
theorem Deed.perform_patch {store : Store} {base stored : Target} (name : String)
    (up : store.unavailable = false) (found : store.find? base.name = some stored)
    (version : stored.version = base.version) (status : Composite) :
    (Deed.patch base status).perform name store = store.afterWrite stored status := by
  simp [Deed.perform, Store.patch_eq_ok_iff.2 ⟨up, stored, found, version, rfl, rfl⟩]

/-! ### The race and its deeds -/

namespace Race

/-- The deeds, performed one after the other from the start, explain the store. -/
structure Explained (start : Store) (r : Race) : Prop where
  store : r.site.store.online = Deed.serial r.name start.online r.deeds
  count : r.site.store.patchCount = start.patchCount + r.deeds.countP Deed.isWrite

theorem explained_new (name : String) (s : Site) : (Race.new name s).Explained s.store :=
  ⟨rfl, rfl⟩

theorem Explained.effect {start : Store} {r r' : Race} {e : Event} (h : r.Explained start)
    (name : r'.name = r.name) (eff : Effect r e r') : r'.Explained start := by
  have up : r.site.store.online.unavailable = false := rfl
  cases eff with
  | none deeds store =>
    refine ⟨by rw [store, h.store, name, deeds], ?_⟩
    rw [← Store.patchCount_online, store, Store.patchCount_online, h.count, deeds]
  | pass t answer now _ _ stored differs deeds store =>
    refine ⟨?_, ?_⟩
    · rw [name, deeds, Deed.serial_concat, ← h.store,
        Deed.perform_pass up stored answer now _ differs, store]
      rfl
    · simp [store, deeds, Store.afterWrite, h.count, Deed.isWrite, Nat.add_assoc]
  | patch stored found version deeds store =>
    refine ⟨?_, ?_⟩
    · rw [name, deeds, Deed.serial_concat, ← h.store,
        Deed.perform_patch r.name up found version, store]
      rfl
    · simp [store, deeds, Store.afterWrite, h.count, Deed.isWrite, Nat.add_assoc]
  | insert deeds store =>
    refine ⟨?_, ?_⟩
    · rw [name, deeds, Deed.serial_concat, ← h.store, store]
      rfl
    · simp [store, deeds, Store.insert, h.count, Deed.isWrite]

theorem fit_explained_run {name : String} {s : Site} {es : List Event}
    (lawful : (Race.new name s).Along Lawful es) :
    ((Race.new name s).run es).Fit ∧ ((Race.new name s).run es).Explained s.store := by
  refine run_induction (Q := fun r => r.Fit ∧ r.Explained s.store) ?_ lawful
    ⟨fit_new name s, explained_new name s⟩
  rintro r e lawful ⟨fit, explained⟩
  exact ⟨fit_step lawful fit, explained.effect (name_step r e) (effect_step fit e)⟩

/-- What is not noted down as a deed leaves no trace in the store. -/
theorem Effect.traceless {r r' : Race} {e : Event} (h : Effect r e r')
    (deeds : r'.deeds = r.deeds) : r'.site.store.online = r.site.store.online := by
  cases h with
  | none _ store => exact store
  | pass _ _ _ _ _ _ _ deeds' _ => simp [deeds'] at deeds
  | patch _ _ _ deeds' _ => simp [deeds'] at deeds
  | insert deeds' _ => simp [deeds'] at deeds

end Race

/-- At every point of a race the store holds what its deeds leave behind when they are performed one
after the other, each at once, and has counted the writes among them; a step that is no deed changes
nothing but whether the store is available. Since versions only grow, it is enough that a target
that is put in has a greater version than the one there. -/
theorem race_serializable {name : String} {s : Site} {es : List Race.Event}
    (lawful : (Race.new name s).Along Race.Lawful es) :
    let r := (Race.new name s).run es
    let serial := Deed.serial name s.store.online r.deeds
    r.site.store.find? name = serial.find? name ∧
      r.site.store.patchCount = s.store.patchCount + r.deeds.countP Deed.isWrite ∧
      r.site.store.online = serial ∧
      ∀ e, (r.step e).deeds = r.deeds → (r.step e).site.store.online = r.site.store.online := by
  intro r serial
  obtain ⟨fit, explained⟩ := Race.fit_explained_run lawful
  have store : r.site.store.online = serial := by
    rw [explained.store, Race.name_run]
    rfl
  refine ⟨?_, explained.count, store, fun e => (Race.effect_step fit e).traceless⟩
  rw [← Store.find?_online, store]

/-- A pass that is overtaken by another, a fleet that changes between their listings, an outage of
the store, a direct write, a target that is put in, and a listing that fails. -/
def overtaken : List Race.Event :=
  [.enter, .enter, .move 0, .move 0, .clock ⟨0, 5, 0, by decide⟩, .move 1, .move 1, .move 0,
    .fleet ⟨[⟨"a", ⟨[.installed .no .applyFailed]⟩⟩]⟩, .move 1, .move 1, .unavailable true, .move 0,
    .unavailable false, .enter, .move 2, .move 2, .patch ⟨"agg", 1, none⟩
      (Listing.composite (.ok []) none .epoch), .insert ⟨"agg", 9, none⟩, .move 2, .move 2,
    .enter, .move 3, .move 3, .outage (some "offline"), .move 3, .move 3]

/-- The race in which one pass is overtaken; two passes and a direct write take effect. -/
theorem race_serializable_overtaken :
    (Race.new "agg" quietSite).Along Race.Lawful overtaken ∧
      ((Race.new "agg" quietSite).run overtaken).deeds.length = 4 ∧
      ((Race.new "agg" quietSite).run overtaken).site.store.patchCount = 3 ∧
      ((Race.new "agg" quietSite).run overtaken).site.store.online =
        Deed.serial "agg" quietSite.store.online
          ((Race.new "agg" quietSite).run overtaken).deeds := by
  have lawful : (Race.new "agg" quietSite).Along Race.Lawful overtaken := by decide +kernel
  have serializable := race_serializable lawful
  exact ⟨lawful, by decide +kernel, by decide +kernel, serializable.2.2.1⟩

end FleetHealth

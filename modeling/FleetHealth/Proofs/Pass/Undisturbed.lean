import FleetHealth.Proofs.Pass.Contents
import FleetHealth.Proofs.Store.Patch

/-!
One pass without interruption, from any state of the site.

`Site.pass_eq` reduces the steps of a pass to one equation: the answer is that of the listing, and
the store is what writing a change over the fetched target makes of it. `Reconciled` is the contract
of a pass, said of the site before and after it.
-/

namespace FleetHealth

open FleetHealth.Time (Instant)

variable {s : Site} {name : String} {t : Target}

theorem Target.carries_iff {t : Target} {c : Composite} : t.carries c = true ↔ t.status = some c := by
  simp [Target.carries]

/-! ### The steps of a pass -/

/-- A pass over a target that is there answers by its listing, and writes a change. -/
theorem Site.pass_eq (up : s.store.unavailable = false) (found : s.store.find? name = some t) :
    s.pass name = (s.list.answer,
      { s with store := (s.store.update t (s.list.composite t.status s.clock)).2 }) := by
  have fetch : (Pass.fetching name).step s =
      (.timing t, s, some (.get name (.ok (some t.version)))) := by
    simp [Pass.step, Store.get_of_available up, found, Pass.fetched, Except.map]
  rw [Site.pass, Pass.run_of_result?_eq_none rfl, fetch]
  rw [Pass.run_of_result?_eq_none rfl, Pass.run_of_result?_eq_none rfl]
  simp only [Pass.step, Pass.listed_eq, Store.update]
  by_cases same : t.carries (s.list.composite t.status s.clock) = true
  · simp only [same, if_true, Pass.run_finished]
  · simp only [same, if_false, Bool.false_eq_true]
    rw [Pass.run_of_result?_eq_none rfl]
    simp only [Pass.step, Pass.run_finished, Site.patch]
    cases s.store.patch t (s.list.composite t.status s.clock) <;> rfl

/-- Writing a change over the stored target itself always succeeds. -/
theorem Store.update_of_find? {s : Store} (up : s.unavailable = false)
    (found : s.find? name = some t) (c : Composite) :
    (s.update t c).2 = if t.status = some c then s else s.afterWrite t c := by
  rw [Store.update]
  by_cases same : t.status = some c
  · simp [Target.carries_iff.2 same, same]
  · have hc : t.carries c = false := by simpa [Target.carries] using same
    have hp : s.patch t c = .ok (written t c, s.afterWrite t c) :=
      patch_eq_ok_iff.2 ⟨up, t, name_of_find? found ▸ found, rfl, rfl, rfl⟩
    simp [hc, hp, same]

/-! ### The contract of a pass -/

/-- What a pass over the target `t` of a site `s` leaves behind: the target carries `c`, and a write
took place, which raised the version by one, if it did not carry it before. -/
structure Reconciled (s : Site) (t : Target) (c : Composite) (s' : Site) : Prop where
  contents : c.contents = s.list.contents
  dated : Dated t.status s.clock c
  stored : ∃ u, s'.store.find? t.name = some u ∧ u.name = t.name ∧ u.status = some c ∧
    u.version.toNat = t.version.toNat + if t.status = some c then 0 else 1
  patchCount : s'.store.patchCount = s.store.patchCount + if t.status = some c then 0 else 1
  others : ∀ name, name ≠ t.name → s'.store.find? name = s.store.find? name
  available : s'.store.unavailable = false
  surroundings : s'.roster = s.roster ∧ s'.outage = s.outage ∧ s'.clock = s.clock

/-- Whatever status the target has, and whatever the listing and the clock say, a pass without
interruption answers and writes what the tables say. -/
theorem pass_reconciles (up : s.store.unavailable = false) (found : s.store.find? name = some t)
    (room : t.version.toNat + 1 < UInt64.size) :
    (s.pass name).1 = s.list.answer ∧ ∃ c, Reconciled s t c (s.pass name).2 := by
  have hn := Store.name_of_find? found
  subst hn
  rw [Site.pass_eq up found, Store.update_of_find? up found]
  have contents := s.list.contents_composite t.status s.clock
  have dated := s.list.dated_composite t.status s.clock
  generalize s.list.composite t.status s.clock = c at contents dated
  refine ⟨rfl, c, ?_⟩
  by_cases same : t.status = some c
  · exact {
      contents, dated
      stored := ⟨t, by simp [same, found]⟩
      patchCount := by simp [same]
      others := by simp [same]
      available := by simp [same, up]
      surroundings := ⟨rfl, rfl, rfl⟩ }
  · have raised : (t.version + 1).toNat = t.version.toNat + 1 := by
      simp only [UInt64.size] at room
      simp only [UInt64.toNat_add]
      simp
      omega
    exact {
      contents, dated
      stored := ⟨Store.written t c, by simp [same, Store.find?_afterWrite, Store.written, raised]⟩
      patchCount := by simp [same, Store.afterWrite]
      others := fun name hne => by simp [same, Store.find?_afterWrite, hne.symm]
      available := by simp [same, Store.afterWrite, Store.insert, up]
      surroundings := ⟨rfl, rfl, rfl⟩ }

/-- A site whose target was written while the fleet was healthy, and whose fleet fails. -/
def failingSite : Site where
  store := ⟨[.new "console",
    ⟨"agg", 7, some (Listing.composite (.ok [⟨"a", ⟨[]⟩⟩]) none .epoch)⟩], 7, false⟩
  roster := ⟨[⟨"a", ⟨[]⟩⟩,
    ⟨"b", ⟨[.installed .no .sourceFailed, .installed .yes .applySuccessful,
      .installed .no .applyFailed]⟩⟩]⟩
  outage := none
  clock := ⟨1, 30, 0, by decide⟩

/-- The contract at a fleet of which one member fails twice. -/
theorem pass_reconciles_failingSite :
    let t : Target := ⟨"agg", 7, some (Listing.composite (.ok [⟨"a", ⟨[]⟩⟩]) none .epoch)⟩
    failingSite.store.unavailable = false ∧ failingSite.store.find? "agg" = some t ∧
      t.version.toNat + 1 < UInt64.size ∧
      (failingSite.pass "agg").1 = .ok (some (.failing ["b", "b"]
        "[b is failing: \"SourceFailed\", b is failing: \"ApplyFailed\"]")) ∧
      ∃ c, Reconciled failingSite t c (failingSite.pass "agg").2 := by
  intro t
  have up : failingSite.store.unavailable = false := rfl
  have found : failingSite.store.find? "agg" = some t := by decide
  have room : t.version.toNat + 1 < UInt64.size := by decide
  have contract := pass_reconciles up found room
  refine ⟨up, found, room, ?_, contract.2⟩
  rw [contract.1]
  rfl

end FleetHealth

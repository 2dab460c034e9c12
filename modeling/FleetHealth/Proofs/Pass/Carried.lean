import FleetHealth.Proofs.Pass.Undisturbed

/-!
When a pass has nothing to write.

A composite status has three times, and passes read the clock at different moments. All the same a
pass finds the target unchanged exactly if the target says what the listing calls for
(`Target.carries_composite_iff`): the times of slots that stay are kept, whatever the clock shows.
-/

namespace FleetHealth

open FleetHealth.Time (Instant)

/-- What the target carries says what the listing calls for. -/
def Target.Tells (t : Target) (l : Listing) : Prop :=
  ∃ c ∈ t.status, c.contents = l.contents

instance (t : Target) (l : Listing) : Decidable (t.Tells l) :=
  inferInstanceAs (Decidable (∃ c ∈ t.status, c.contents = l.contents))

/-- A composite status that follows itself keeps its times. -/
theorem Dated.self (c : Composite) (now : Instant) : Dated (some c) now c where
  kept p hp x _ := by
    cases hp
    rfl
  fresh x differs := absurd rfl (differs c rfl)

/-- Only the contents decide whether a pass has something to write. -/
theorem Target.carries_composite_iff {t : Target} {l : Listing} {now : Instant} :
    t.carries (l.composite t.status now) = true ↔ t.Tells l := by
  rw [Target.carries_iff]
  constructor
  · intro same
    exact ⟨_, same, l.contents_composite t.status now⟩
  · rintro ⟨c, carried, told⟩
    have carried : t.status = some c := carried
    have dated : Dated (some c) now (l.composite t.status now) :=
      carried ▸ l.dated_composite t.status now
    have contents : c.contents = (l.composite t.status now).contents := by
      rw [told, l.contents_composite]
    rw [← (Dated.self c now).unique dated contents]
    exact carried

namespace Store

variable {s : Store} {t u : Target} {c : Composite} {name : String}

/-- Writing over the stored version succeeds. -/
theorem patch_of_version_eq (up : s.unavailable = false) (found : s.find? t.name = some u)
    (same : u.version = t.version) : s.patch t c = .ok (written u c, s.afterWrite u c) :=
  patch_eq_ok_iff.2 ⟨up, u, found, same, rfl, rfl⟩

/-- Writing over another version than the stored one is a conflict. -/
theorem patch_of_version_ne (up : s.unavailable = false) (found : s.find? t.name = some u)
    (other : u.version ≠ t.version) :
    s.patch t c = .error (.conflict t.name t.version u.version) := by
  simp [patch, up, found, other]

/-- The target just written is found again. -/
theorem find?_afterWrite_self (found : s.find? name = some t) :
    (s.afterWrite t c).find? name = some (written t c) := by
  rw [find?_afterWrite, if_pos (name_of_find? found)]

theorem written_tells {l : Listing} (contents : c.contents = l.contents) : (written t c).Tells l :=
  ⟨c, rfl, contents⟩

end Store

end FleetHealth

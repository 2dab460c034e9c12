import FleetHealth.Store

/-!
What a successful write does to a store.

`patch_eq_ok_iff` says when a write succeeds and what it leaves behind; the callers of `Store.patch`
argue from it alone. `Store.Later` relates the target of a name at two moments: it is the same, or
its version has grown. A target that somebody fetched is then never mistaken for a later one
(`Store.Past`): while the versions agree, so do the targets.
-/

namespace FleetHealth.Store

variable {s s' s'' : Store} {base t u : Target} {status : Composite} {name : String}

theorem name_of_find? (h : s.find? name = some t) : t.name = name := by
  simpa [find?] using List.find?_some h

/-- A store that answers has the target that it was asked for. -/
theorem get_of_available (h : s.unavailable = false) (name : String) :
    s.get name = .ok (s.find? name) := by
  simp [get, h]

theorem get_eq_ok_some_iff :
    s.get name = .ok (some t) ↔ s.unavailable = false ∧ s.find? name = some t := by
  unfold get
  cases s.unavailable <;> simp

/-- The target that a successful write leaves behind. -/
def written (stored : Target) (status : Composite) : Target :=
  { stored with status := some status, version := stored.version + 1 }

/-- A write raises the version by one, unless there is none greater. -/
theorem version_written {stored : Target} (room : stored.version.toNat + 1 < UInt64.size)
    (status : Composite) :
    (written stored status).version.toNat = stored.version.toNat + 1 := by
  simp only [UInt64.size] at room
  simp only [written, UInt64.toNat_add]
  simp
  omega

/-- The store that a successful write leaves behind. -/
def afterWrite (s : Store) (stored : Target) (status : Composite) : Store :=
  { s.insert (written stored status) with patchCount := s.patchCount + 1 }

/-- A write succeeds exactly if the store is available and has a target of that name and version. -/
theorem patch_eq_ok_iff :
    s.patch base status = .ok (t, s') ↔
      s.unavailable = false ∧ ∃ stored, s.find? base.name = some stored ∧
        stored.version = base.version ∧ t = written stored status ∧
        s' = s.afterWrite stored status := by
  unfold patch
  cases s.unavailable with
  | true => simp
  | false =>
    cases hf : s.find? base.name with
    | none => simp
    | some stored =>
      by_cases hv : stored.version = base.version
      · simp [hv, written, afterWrite, eq_comm]
      · simp [hv]

theorem find?_afterWrite (s : Store) (stored : Target) (status : Composite) (name : String) :
    (s.afterWrite stored status).find? name =
      if stored.name = name then some (written stored status) else s.find? name :=
  find?_insert s (written stored status) name

/-! ### A store that answers -/

/-- The store with its service restored. -/
def online (s : Store) : Store := { s with unavailable := false }

@[simp] theorem find?_online (s : Store) (name : String) : s.online.find? name = s.find? name := rfl

@[simp] theorem patchCount_online (s : Store) : s.online.patchCount = s.patchCount := rfl

/-! ### The target of a name, earlier and later -/

/-- The target of the name is still there, and either the same or of a greater version. -/
def Later (name : String) (s s' : Store) : Prop :=
  ∀ u ∈ s.find? name, ∃ u' ∈ s'.find? name, u' = u ∨ u.version < u'.version

/-- The target was fetched earlier: the stored one is no older, and of one version they are one. -/
def Past (s : Store) (name : String) (t : Target) : Prop :=
  t.name = name ∧ ∃ u ∈ s.find? name, u = t ∨ t.version < u.version

theorem Later.of_find?_eq (h : s'.find? name = s.find? name) : Later name s s' := by
  intro u hu
  exact ⟨u, h ▸ hu, .inl rfl⟩

theorem past_of_find? (h : s.find? name = some t) : s.Past name t :=
  ⟨name_of_find? h, t, h, .inl rfl⟩

theorem Past.later (h : s.Past name t) (l : Later name s s') : s'.Past name t := by
  obtain ⟨hn, u, hu, hut⟩ := h
  obtain ⟨u', hu', huu'⟩ := l u hu
  refine ⟨hn, u', hu', ?_⟩
  rcases hut with rfl | hlt
  · exact huu'
  · rcases huu' with rfl | hlt'
    · exact .inr hlt
    · exact .inr (UInt64.lt_trans hlt hlt')

/-- A past target of the stored version is the stored target. -/
theorem Past.eq_of_version (h : s.Past name t) (hf : s.find? name = some u)
    (hv : u.version = t.version) : u = t := by
  obtain ⟨-, u', hu', hut⟩ := h
  cases hf.symm.trans hu'
  rcases hut with rfl | hlt
  · rfl
  · exact absurd hlt (by simp [hv])

/-- While the version can still grow, a write raises it. -/
theorem later_afterWrite {stored : Target} (hf : s.find? stored.name = some stored)
    (room : ∀ u ∈ s.find? name, u.version.toNat + 1 < UInt64.size) :
    Later name s (s.afterWrite stored status) := by
  intro u hu
  by_cases hn : stored.name = name
  · subst hn
    cases hf.symm.trans hu
    refine ⟨written stored status, by simp [find?_afterWrite], .inr ?_⟩
    rw [UInt64.lt_iff_toNat_lt, version_written (room stored hu)]
    exact Nat.lt_succ_self _
  · exact ⟨u, by simpa [find?_afterWrite, hn] using hu, .inl rfl⟩

/-- A target that is put in place of one of a smaller version. -/
theorem later_insert (newer : t.name = name → ∀ u ∈ s.find? name, u.version < t.version) :
    Later name s (s.insert t) := by
  intro u hu
  by_cases hn : t.name = name
  · exact ⟨t, by simp [hn], .inr (newer hn u hu)⟩
  · exact ⟨u, by simpa [hn] using hu, .inl rfl⟩

end FleetHealth.Store

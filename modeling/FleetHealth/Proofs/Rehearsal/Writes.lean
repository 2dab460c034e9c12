import FleetHealth.Proofs.Pass.Conduct
import FleetHealth.Proofs.Rehearsal.Watched

/-!
Writes of a script, one after the other.

A step of a script that writes makes one call if the target as it was handed over does not carry the
status, and otherwise none (`take_write`); what the store has by then decides only whether that call
succeeds. When each status is written over the target as it has just been fetched, the writes that
reach the store are the changes in the list of statuses (`Tracked.revised`).
-/

namespace FleetHealth.Rehearsal

/-- In a list of statuses, the places at which one differs from that before it. -/
def changes (first : Option Composite) (ds : List Composite) : Nat :=
  ((first :: ds.map some).zip ds).countP fun (before, d) => before ≠ some d

namespace World

/-- Nothing happens by itself: the loop of the service waits, and no hook does. -/
structure Quiet (w : World) : Prop where
  rests : w.Rests
  hooks : w.hooks = []

/-- Fetches the target of a name and writes a status over it: the world after that, and what was seen
of the write, if there is a target. -/
def revise (w : World) (name : String) (d : Composite) : World × Option Observation :=
  let (w', seen) := w.take (.get name)
  match seen.result with
  | .fetched (.ok (some t)) =>
    let (w'', seen') := w'.take (.write t d)
    (w'', some seen')
  | _ => (w', none)

/-- The world after a list of statuses has been written like this. -/
def revised (w : World) (name : String) (ds : List Composite) : World :=
  ds.foldl (fun w d => (w.revise name d).1) w

section

variable {w : World} {name : String} {t base : Target} {d : Composite} {ds : List Composite}

/-! ### Single steps -/

theorem Rests.asleep (rests : w.Rests) : w.service.canWake = false := by
  obtain ⟨site, ⟨config, lifecycle, queue, pass⟩, hooks, notes⟩ := w
  obtain ⟨idle, empty⟩ := rests
  cases lifecycle with
  | running => simp [Service.canWake, show queue = [] from empty rfl]
  | created | ending | ended => rfl

/-- A machine without an activity, whose loop has nothing to take, has come to rest. -/
theorem settle_of_asleep (asleep : w.service.canWake = false) (r : Option Result) :
    (⟨w, [], r⟩ : Machine).settle = ⟨w, [], r⟩ :=
  Machine.settle_of_next_eq_none (by simp [Machine.next, asleep])

/-- What a step leaves behind is that of the machine that has come to rest. -/
theorem take_of_settle {w' : World} {s : Step} {r : Result} (rests : w.Rests)
    (settled : (Machine.begin { w with notes := [] } s).settle = ⟨w', [], some r⟩)
    (hooks : w'.hooks = []) :
    (w.take s).1.Quiet ∧ (w.take s).1.site = w'.site ∧ (w.take s).2.result = r ∧
      (w.take s).2.notes = w'.notes.reverse := by
  refine ⟨⟨(w.take_watched s rests).2, ?_⟩, ?_⟩ <;> simp [take, settled, hooks]

/-- A step that is done at once and changes neither the service nor the hooks. -/
theorem take_at_once {w' : World} {s : Step} {r : Result} (quiet : w.Quiet)
    (done : ({ w with notes := [] } : World).act s = (w', .inl r))
    (service : w'.service = w.service) (hooks : w'.hooks = w.hooks) :
    (w.take s).1.Quiet ∧ (w.take s).1.site = w'.site ∧ (w.take s).2.result = r ∧
      (w.take s).2.notes = w'.notes.reverse := by
  refine take_of_settle quiet.rests ?_ (hooks.trans quiet.hooks)
  rw [Machine.begin, done]
  exact settle_of_asleep (service ▸ quiet.rests.asleep) (some r)

theorem take_get (quiet : w.Quiet) (name : String) :
    (w.take (.get name)).1.Quiet ∧ (w.take (.get name)).1.site = w.site ∧
      (w.take (.get name)).2.result = .fetched (w.site.store.get name) ∧
      (w.take (.get name)).2.notes = [] := by
  have done : ({ w with notes := [] } : World).act (.get name) =
      ({ w with notes := [] }, .inl (.fetched (w.site.store.get name))) := rfl
  exact take_at_once quiet done rfl rfl

/-- A write over a target that carries the status calls for nothing. -/
theorem take_write_of_carried (quiet : w.Quiet) (same : base.status = some d) :
    (w.take (.write base d)).1.Quiet ∧ (w.take (.write base d)).1.site = w.site ∧
      (w.take (.write base d)).2.result = .wrote (.ok .unchanged) ∧
      (w.take (.write base d)).2.notes = [] := by
  have done : ({ w with notes := [] } : World).act (.write base d) =
      ({ w with notes := [] }, .inl (.wrote (.ok .unchanged))) :=
    if_pos (Target.carries_iff.2 same)
  exact take_at_once quiet done rfl rfl

/-- Any other write makes one call, and answers what came of it. -/
theorem take_write_of_not_carried (quiet : w.Quiet) (other : base.status ≠ some d) :
    ∃ answer, (w.take (.write base d)).1.Quiet ∧
      Pass.Overwrites w.site base d answer (w.take (.write base d)).1.site ∧
      (w.take (.write base d)).2.result = .wrote (answer.map fun _ => .written) ∧
      (w.take (.write base d)).2.notes = [.call (.patch base.name base.version answer)] := by
  obtain ⟨answer, left, overwrites, patched⟩ := Pass.overwrites_patch w.site base d
  have begun : Machine.begin { w with notes := [] } (.write base d) =
      ⟨{ w with notes := [] }, [.write base d false], none⟩ := by
    have act : ({ w with notes := [] } : World).act (.write base d) =
        ({ w with notes := [] }, .inr (.write base d false)) :=
      if_neg (mt Target.carries_iff.1 other)
    rw [Machine.begin, act]
    rfl
  let v : World :=
    { w with site := left, hooks := [], notes := [.call (.patch base.name base.version answer)] }
  have moved : (⟨{ w with notes := [] }, [.write base d false], none⟩ : Machine).next =
      some ⟨v, [], some (.wrote (answer.map fun _ => .written))⟩ := by
    simp only [Machine.next, moveWrite, quiet.hooks, takeHook, patched, note]
    cases answer <;> rfl
  have settled := settle_of_asleep (w := v) quiet.rests.asleep
    (some (.wrote (answer.map fun _ => .written)))
  rw [← Machine.settle_of_next_eq_some moved, ← begun] at settled
  obtain ⟨quiet', site, result, notes⟩ := take_of_settle quiet.rests settled rfl
  exact ⟨answer, quiet', site.symm ▸ overwrites, result, notes⟩

/-! ### Statuses one after the other -/

/-- The store answers, and under this name it has this target. -/
structure Tracked (w : World) (name : String) (t : Target) : Prop where
  quiet : w.Quiet
  up : w.site.store.unavailable = false
  found : w.site.store.find? name = some t

/-- The target after a status has been written over it, unless it carried that already. -/
def turned (t : Target) (d : Composite) : Target :=
  if t.status = some d then t else Store.written t d

theorem turned_status (t : Target) (d : Composite) : (turned t d).status = some d := by
  rw [turned]
  split
  · next same => exact same
  · rfl

theorem turned_version (room : t.version.toNat + 1 < UInt64.size) (d : Composite) :
    (turned t d).version.toNat = t.version.toNat + if t.status = some d then 0 else 1 := by
  rw [turned]
  split
  · rfl
  · exact Store.version_written room d

/-- Writing over the target as it has just been fetched makes a call exactly if that changes it, and
the call succeeds. -/
theorem Tracked.revise (h : w.Tracked name t) (d : Composite) :
    (w.revise name d).1.Tracked name (turned t d) ∧
      (w.revise name d).1.site.store.patchCount =
        w.site.store.patchCount + (if t.status = some d then 0 else 1) ∧
      ∃ seen, (w.revise name d).2 = some seen ∧
        seen.result = .wrote (.ok (if t.status = some d then .unchanged else .written)) ∧
        seen.notes = if t.status = some d then []
          else [.call (.patch name t.version (.ok (t.version + 1)))] := by
  obtain ⟨quiet, site, result, -⟩ := take_get h.quiet name
  have fetched : (w.take (.get name)).2.result = .fetched (.ok (some t)) := by
    rw [result, Store.get_of_available h.up, h.found]
  have revised : w.revise name d = (((w.take (.get name)).1.take (.write t d)).1,
      some ((w.take (.get name)).1.take (.write t d)).2) := by
    simp only [World.revise, fetched]
  rw [revised]
  generalize (w.take (.get name)).1 = v at quiet site
  by_cases same : t.status = some d
  · obtain ⟨quiet', site', result', notes⟩ := take_write_of_carried quiet same
    simp only [turned, if_pos same]
    refine ⟨⟨quiet', ?_, ?_⟩, ?_, _, rfl, result', notes⟩
    · rw [site', site, h.up]
    · rw [site', site, h.found]
    · rw [site', site]
      rfl
  · obtain ⟨answer, quiet', overwrites, result', notes⟩ := take_write_of_not_carried quiet same
    have named := Store.name_of_find? h.found
    have patched := Store.patch_of_version_eq (c := d) h.up (named ▸ h.found) rfl
    rw [Pass.Overwrites, site, patched] at overwrites
    obtain ⟨rfl, site'⟩ := overwrites
    simp only [turned, if_neg same]
    refine ⟨⟨quiet', ?_, ?_⟩, ?_, _, rfl, result', named ▸ notes⟩
    · rw [site']
      exact h.up
    · rw [site']
      exact Store.find?_afterWrite_self h.found
    · rw [site']
      rfl

theorem changes_cons (first : Option Composite) (d : Composite) (ds : List Composite) :
    changes first (d :: ds) = (if first = some d then 0 else 1) + changes (some d) ds := by
  simp only [changes, List.map_cons, List.zip_cons_cons, List.countP_cons]
  by_cases same : first = some d <;> simp [same, Nat.add_comm]

theorem getLast?_cons_or (first : Option Composite) (d : Composite) (ds : List Composite) :
    (d :: ds).getLast?.or first = ds.getLast?.or (some d) := by
  rw [List.getLast?_cons]
  cases ds.getLast? <;> rfl

/-- The last status stays, and each change has raised the version and has been counted. -/
theorem Tracked.revised (h : w.Tracked name t) (room : t.version.toNat + ds.length < UInt64.size) :
    ∃ u, (w.revised name ds).Tracked name u ∧ u.status = ds.getLast?.or t.status ∧
      u.version.toNat = t.version.toNat + changes t.status ds ∧
      (w.revised name ds).site.store.patchCount =
        w.site.store.patchCount + changes t.status ds := by
  induction ds generalizing w t with
  | nil => exact ⟨t, h, rfl, rfl, rfl⟩
  | cons d ds ih =>
    obtain ⟨tracked, count, -⟩ := h.revise d
    rw [List.length_cons] at room
    have version := turned_version (t := t) (by omega) d
    obtain ⟨u, tracked', status, version', count'⟩ := ih tracked (by split at version <;> omega)
    rw [turned_status] at status version' count'
    refine ⟨u, tracked', ?_, ?_, ?_⟩
    · rw [status, getLast?_cons_or]
    · rw [version', version, changes_cons, Nat.add_assoc]
    · rw [changes_cons, ← Nat.add_assoc, ← count]
      exact count'

end

end World

/-- A store that answers and has the target of a name, with whatever status, and statuses that are
written one after the other, each over the target as it was fetched just before. A write is made if
the status differs from the one before it, and otherwise the target is found unchanged; in the end the
last status is there, and the version and the count of the store have grown by the number of changes.
Over a target that is merely handed over, a write makes no call if that target carries the status, and
otherwise one, whatever the store has by then; it answers what came of the call, and a call that is
refused leaves everything as it is. -/
theorem writes_are_changes {w : World} {name : String} {t : Target} {ds : List Composite}
    (quiet : w.Quiet) (up : w.site.store.unavailable = false)
    (found : w.site.store.find? name = some t)
    (room : t.version.toNat + ds.length < UInt64.size) :
    (∀ before d after, ds = before ++ d :: after → ∃ u seen,
      (w.revised name before).site.store.get name = .ok (some u) ∧
      u.status = before.getLast?.or t.status ∧
      ((w.revised name before).revise name d).2 = some seen ∧
      seen.result = .wrote (.ok (if u.status = some d then .unchanged else .written)) ∧
      seen.notes = if u.status = some d then []
        else [.call (.patch name u.version (.ok (u.version + 1)))]) ∧
    (∃ u, (w.revised name ds).site.store.get name = .ok (some u) ∧
      u.status = ds.getLast?.or t.status ∧
      u.version.toNat = t.version.toNat + changes t.status ds) ∧
    (w.revised name ds).site.store.patchCount = w.site.store.patchCount + changes t.status ds ∧
    ∀ (v : World) (base : Target) (d : Composite), v.Quiet →
      (base.status = some d → (v.take (.write base d)).1.site = v.site ∧
        (v.take (.write base d)).2.result = .wrote (.ok .unchanged) ∧
        (v.take (.write base d)).2.notes = []) ∧
      (base.status ≠ some d → ∃ answer,
        Pass.Overwrites v.site base d answer (v.take (.write base d)).1.site ∧
        (v.take (.write base d)).2.result = .wrote (answer.map fun _ => .written) ∧
        (v.take (.write base d)).2.notes = [.call (.patch base.name base.version answer)]) := by
  have tracked : w.Tracked name t := ⟨quiet, up, found⟩
  have get {v : World} {u : Target} (h : v.Tracked name u) :
      v.site.store.get name = .ok (some u) := by
    rw [Store.get_of_available h.up, h.found]
  obtain ⟨u, tracked', status, version, count⟩ := tracked.revised room
  refine ⟨?_, ⟨u, get tracked', status, version⟩, count, fun v base d quiet => ⟨?_, ?_⟩⟩
  · rintro before d after rfl
    rw [List.length_append] at room
    have fits : t.version.toNat + before.length < UInt64.size := by omega
    obtain ⟨u, tracked', status, -⟩ := tracked.revised fits
    obtain ⟨-, -, seen, revised, result, notes⟩ := tracked'.revise d
    exact ⟨u, seen, get tracked', status, revised, result, notes⟩
  · intro same
    exact (World.take_write_of_carried quiet same).2
  · intro other
    obtain ⟨answer, -, overwrites, result, notes⟩ := World.take_write_of_not_carried quiet other
    exact ⟨answer, overwrites, result, notes⟩

/-- Four statuses with three changes among them; and a write over a version that never was, which is a
conflict and leaves the site as it is. -/
theorem writes_are_changes_stale :
    let calm := Listing.composite (.ok []) none .epoch
    let lost := Listing.composite (.error "offline") none .epoch
    let w := World.new (.single "agg") .empty .default
    let stale : Target := ⟨"agg", 5, none⟩
    w.Quiet ∧ changes none [calm, calm, lost, calm] = 3 ∧
      (w.revised "agg" [calm, calm, lost, calm]).site.store.patchCount = 3 ∧
      (∃ seen, ((w.revised "agg" [calm]).revise "agg" calm).2 = some seen ∧
        seen.result = .wrote (.ok .unchanged) ∧ seen.notes = []) ∧
      (w.take (.write stale calm)).2.result = .wrote (.error (.conflict "agg" 5 0)) ∧
      (w.take (.write stale calm)).1.site = w.site := by
  intro calm lost w stale
  have quiet : w.Quiet := ⟨⟨rfl, nofun⟩, rfl⟩
  have found : w.site.store.find? "agg" = some (.new "agg") := by decide
  have three : changes none [calm, calm, lost, calm] = 3 := by decide +kernel
  obtain ⟨each, -, count, handed⟩ := @writes_are_changes w "agg" (.new "agg")
    [calm, calm, lost, calm] quiet rfl found (by decide)
  obtain ⟨u, seen, -, status, revised, result, notes⟩ := each [calm] calm [lost, calm] rfl
  have same : u.status = some calm := status
  rw [if_pos same] at result notes
  obtain ⟨answer, overwrites, refused, -⟩ := (handed w stale calm quiet).2 nofun
  have version : (Target.new "agg").version ≠ stale.version := by decide
  have conflict : w.site.store.patch stale calm = .error (.conflict "agg" 5 0) :=
    Store.patch_of_version_ne rfl found version
  rw [Pass.Overwrites, conflict] at overwrites
  obtain ⟨rfl, left⟩ := overwrites
  exact ⟨quiet, three, count.trans (congrArg (0 + ·) three), ⟨seen, revised, result, notes⟩, refused,
    left⟩

end FleetHealth.Rehearsal

import FleetHealth.Proofs.Pass.Carried
import FleetHealth.Proofs.Pass.Trace
import FleetHealth.Proofs.Race.Log

/-!
What becomes of the write of a pass that is slow.

The version of the target counts the writes that succeeded (`Race.counted_run`), so a write that
comes after another one than the pass has fetched meets a conflict, and one that does not succeeds:
`late_write_refused`. A pass that finds nothing to write raises no version. It may have listed the
members later than a slow pass, and still the slow pass writes over the target that it found in
order (`unchanged_pass_overtaken`).
-/

namespace FleetHealth

open FleetHealth.Time (Instant)

namespace Pass

/-- The pass goes by this target, which it has fetched, or it has ended. -/
def GoesBy (t : Target) : Pass → Prop
  | fetching _ => False
  | timing u | listing u _ | writing u .. => u = t
  | finished _ => True

/-- A pass fetches once. -/
theorem GoesBy.step {t : Target} {p : Pass} (h : p.GoesBy t) (s : Site) :
    (p.step s).1.GoesBy t := by
  cases p with
  | fetching => exact h.elim
  | timing | finished => exact h
  | writing => trivial
  | listing u now =>
    simp only [Pass.step, listed_eq]
    split
    · trivial
    · exact h

theorem result?_step {p : Pass} (h : p.result? ≠ none) (s : Site) :
    (p.step s).1.result? ≠ none := by
  cases p with
  | finished => exact h
  | fetching | timing | listing | writing => exact absurd rfl h

end Pass

namespace Race

/-- Only the passes write the target, as long as its version can be raised, and the store is
available. -/
def Served (r : Race) (e : Event) : Prop :=
  r.PassesOnly e ∧ (r.step e).site.store.unavailable = false

instance (r : Race) (e : Event) : Decidable (r.Served e) :=
  inferInstanceAs (Decidable (_ ∧ _))

section

variable {r : Race} {e : Event} {es : List Event} {t u : Target} {i : Nat} {c : Call}

/-- What each step of a pass keeps, a run keeps of the pass with that number. -/
theorem racer_run {P : Pass → Prop} (step : ∀ p s, P p → P (p.step s).1)
    (h : ∃ x, r.racers[i]? = some x ∧ P x.pass) :
    ∃ x, (r.run es).racers[i]? = some x ∧ P x.pass := by
  induction es generalizing r with
  | nil => exact h
  | cons e es ih =>
    obtain ⟨x, hx, hp⟩ := h
    rcases racer_step hx with hx' | ⟨-, hx'⟩
    · exact ih ⟨x, hx', hp⟩
    · exact ih ⟨_, hx', step x.pass r.site hp⟩

/-! ### The version counts the writes -/

/-- The target after an event: its version is raised by the writes that succeeded, and it is the
same if none did. -/
def Counted (u : Target) (landed : Nat) (r : Race) : Prop :=
  ∃ v, r.site.store.find? r.name = some v ∧ v.version.toNat = u.version.toNat + landed ∧
    (landed = 0 → v = u)

theorem landed_pos {c : Nat × Call} {calls : List (Nat × Call)} (made : c ∈ calls)
    (write : c.2.isWrite = true) : 0 < landed calls :=
  List.countP_pos_iff.2 ⟨c, made, write⟩

theorem counted_self (stored : r.site.store.find? r.name = some u) : r.Counted u 0 :=
  ⟨u, stored, rfl, fun _ => rfl⟩

/-- A write that succeeds raises the version by one. -/
theorem counted_written {d : Composite} {before : Option Target} (found : before = some u)
    (stored : r.site.store.find? r.name = some (Store.written u d))
    (room : r.site.store.find? r.name = before ∨
      ∀ v ∈ before, v.version.toNat + 1 < UInt64.size) : r.Counted u 1 := by
  refine ⟨_, stored, ?_, fun zero => absurd zero Nat.one_ne_zero⟩
  have bound : u.version.toNat + 1 < UInt64.size := by
    rcases room with same | room
    · rw [stored, found, Option.some.injEq] at same
      have version := congrArg Target.version same
      simp [Store.written] at version
    · exact room u found
  exact Store.version_written bound d

theorem counted_step (fit : r.Fit) (only : r.PassesOnly e)
    (stored : r.site.store.find? r.name = some u) :
    (r.step e).Counted u (landed (r.call? e).toList) := by
  rcases target_step fit only.2 stored with
    ⟨same, quiet⟩ | ⟨i, answer, now, result, rfl, -, call, written⟩
  · rw [quiet]
    exact ⟨u, by rw [name_step, same], rfl, fun _ => rfl⟩
  · have once : landed (r.call? (.move i)).toList = 1 := by simp [call, landed, Call.isWrite]
    have found := Store.find?_afterWrite_self (c := answer.composite u.status now) stored
    rw [once]
    refine counted_written stored (d := answer.composite u.status now) ?_ ?_
    · rw [name_step, written, found]
    · rw [name_step]
      exact only.1

/-- The version of the target counts the writes of a run. -/
theorem counted_run (fit : r.Fit) (only : r.Along PassesOnly es)
    (stored : r.site.store.find? r.name = some u) :
    (r.run es).Counted u (landed (r.log es)) := by
  induction es generalizing r u with
  | nil => exact counted_self stored
  | cons e es ih =>
    obtain ⟨v, hv, version, same⟩ := counted_step fit only.1 stored
    obtain ⟨w, hw, version', same'⟩ := ih (fit_step only.1.lawful fit) only.2 hv
    have split : landed (r.log (e :: es)) =
        landed (r.call? e).toList + landed ((r.step e).log es) := List.countP_append
    rw [split]
    refine ⟨w, hw, by omega, fun zero => ?_⟩
    rw [same' (by omega), same (by omega)]

/-! ### The answer to a slow write -/

/-- The racers fit the store, which is available. -/
structure Ready (r : Race) : Prop where
  fit : r.Fit
  up : r.site.store.unavailable = false

theorem Ready.step (h : r.Ready) (served : r.Served e) : (r.step e).Ready :=
  ⟨fit_step served.1.lawful h.fit, served.2⟩

theorem Ready.run (h : r.Ready) (served : r.Along Served es) : (r.run es).Ready :=
  run_induction (fun _ _ served h => h.step served) served h

theorem Served.only {es : List Event} (h : r.Along Served es) : r.Along PassesOnly es := by
  induction es generalizing r with
  | nil => trivial
  | cons e es ih => exact ⟨h.1.1, ih h.2⟩

/-- A call to write names the version that the pass has fetched. It is answered by the version that
is stored, and writes if the two agree. -/
theorem Ready.patch_answer {base : UInt64} {answer : Except Store.Error UInt64} {n : String}
    (h : r.Ready) (stored : r.site.store.find? r.name = some u)
    (goes : ∃ x, r.racers[i]? = some x ∧ x.pass.GoesBy t)
    (call : r.call? e = some (i, .patch n base answer)) :
    base = t.version ∧
      (u.version = base ∧ answer = .ok (base + 1) ∨
        u.version ≠ base ∧ answer = .error (.conflict r.name base u.version)) := by
  obtain ⟨rfl, x, hx, call⟩ := racer_of_call? call
  obtain ⟨y, hy, goes⟩ := goes
  cases hx.symm.trans hy
  have due := Pass.due_of_step call
  cases h.fit x (List.mem_of_getElem? hx) with
  | fetching | timing | listing | finished => cases due
  | @writing v now heard result past differs =>
    obtain rfl : v = t := goes
    have found : r.site.store.find? v.name = some u := past.1 ▸ stored
    by_cases same : u.version = v.version
    · have succeeds := Store.patch_of_version_eq (c := heard.composite v.status now) h.up found same
      simp only [Pass.step, Site.patch, succeeds, Option.some.injEq, Call.patch.injEq] at call
      obtain ⟨-, rfl, rfl⟩ := call
      exact ⟨rfl, .inl ⟨same, by rw [Store.written, same]⟩⟩
    · have fails := Store.patch_of_version_ne (c := heard.composite v.status now) h.up found same
      simp only [Pass.step, Site.patch, fails, Option.some.injEq, Call.patch.injEq] at call
      obtain ⟨-, rfl, rfl⟩ := call
      exact ⟨rfl, .inr ⟨same, by rw [past.1]⟩⟩

/-- What a call to write is answered a while after the pass has fetched. -/
theorem Ready.late_answer {base : UInt64} {answer : Except Store.Error UInt64} {n : String}
    (h : r.Ready) (served : r.Along Served es) (stored : r.site.store.find? r.name = some u)
    (goes : ∃ x, r.racers[i]? = some x ∧ x.pass.GoesBy t)
    (call : (r.run es).call? e = some (i, .patch n base answer)) :
    base = t.version ∧ ∃ v : Target, v.version.toNat = u.version.toNat + landed (r.log es) ∧
      (landed (r.log es) = 0 → v = u) ∧
      (v.version = base ∧ answer = .ok (base + 1) ∨
        v.version ≠ base ∧ answer = .error (.conflict r.name base v.version)) := by
  obtain ⟨v, hv, version, same⟩ := counted_run h.fit (Served.only served) stored
  have goes' : ∃ x, (r.run es).racers[i]? = some x ∧ x.pass.GoesBy t :=
    racer_run (P := Pass.GoesBy t) (fun _ s hp => hp.step s) goes
  obtain ⟨hb, answered⟩ := (h.run served).patch_answer hv goes' call
  rw [name_run] at answered
  exact ⟨hb, v, version, same, answered⟩

/-- A pass that lists the members goes by a target that is not later than the stored one. -/
theorem Ready.listing {m : Option Nat} (h : r.Ready) (call : r.call? e = some (i, .list m)) :
    ∃ t u, r.site.store.find? r.name = some u ∧ t.version ≤ u.version ∧
      ∃ x, r.racers[i]? = some x ∧ x.pass.GoesBy t := by
  obtain ⟨rfl, x, hx, call⟩ := racer_of_call? call
  have due := Pass.due_of_step call
  cases h.fit x (List.mem_of_getElem? hx) with
  | fetching | timing | writing | finished => cases due
  | @listing t now heard past =>
    obtain ⟨-, u, hu, same | later⟩ := past
    · exact ⟨t, u, hu, same ▸ UInt64.le_refl _, _, hx, rfl⟩
    · exact ⟨t, u, hu, UInt64.le_of_lt later, _, hx, rfl⟩

/-- A pass that fetches the target goes by the stored one or, if there is none, has ended. -/
theorem Ready.fetching {k : String} {found : Except Store.Error (Option UInt64)} (h : r.Ready)
    (call : r.call? e = some (i, .get k found)) :
    (r.step e).site = r.site ∧ ∃ x, (r.step e).racers[i]? = some x ∧
      (x.pass.result? ≠ none ∨ ∃ u, r.site.store.find? r.name = some u ∧
        found = .ok (some u.version) ∧ x.pass.GoesBy u) := by
  obtain ⟨rfl, x, hx, call⟩ := racer_of_call? call
  have inside := (List.getElem?_eq_some_iff.1 hx).1
  have moved : (r.step (.move i)).racers[i]? = some (x.next r.site) := by
    simp only [Race.step, hx]
    exact List.getElem?_set_self inside
  have due := Pass.due_of_step call
  cases h.fit x (List.mem_of_getElem? hx) with
  | timing | listing | writing | finished => cases due
  | @fetching read heard =>
    refine ⟨by simp [Race.step, hx, Pass.step], _, moved, ?_⟩
    simp only [Pass.step, Option.some.injEq, Call.get.injEq] at call
    obtain ⟨rfl, rfl⟩ := call
    simp only [Racer.next, Pass.step, Store.get_of_available h.up]
    cases hf : r.site.store.find? r.name with
    | none => exact .inl (Option.some_ne_none _)
    | some u => exact .inr ⟨u, rfl, rfl, rfl⟩

/-- A write that comes after another one, whose pass has listed the members later, is a conflict. -/
theorem Ready.overtaken {q p : Nat} {m n : Option Nat} {k k' : String} {b v base : UInt64}
    {answer : Except Store.Error UInt64} {l₁ l₂ l₃ l₄ : List (Nat × Call)} (h : r.Ready)
    (served : r.Along Served es)
    (order : r.log es = l₁ ++ (q, .list m) :: (l₂ ++ (p, .list n) ::
      (l₃ ++ (p, .patch k b (.ok v)) :: l₄)))
    (late : (r.run es).call? e = some (q, .patch k' base answer)) :
    ∃ found, base < found ∧ answer = .error (.conflict r.name base found) := by
  obtain ⟨es₁, e₁, es₂, rfl, -, listed, between⟩ := moment_of_log order
  obtain ⟨served₁, served₂⟩ := along_append.1 served
  obtain ⟨t, u, stored, le, goes⟩ := (h.run served₁).listing listed
  rw [run_append] at late
  obtain ⟨rfl, w, version, -, answered⟩ := (h.run served₁).late_answer served₂ stored goes late
  have patched : (p, Call.patch k b (.ok v)) ∈ (r.run es₁).log (e₁ :: es₂) := by
    rw [log, between]
    simp
  have some_landed := landed_pos patched rfl
  rw [UInt64.le_iff_toNat_le] at le
  have later : t.version < w.version := by
    rw [UInt64.lt_iff_toNat_lt]
    omega
  rcases answered with ⟨same, -⟩ | ⟨-, refused⟩
  · rw [same] at later
    exact absurd later (by simp)
  · rw [name_run] at refused
    exact ⟨w.version, later, refused⟩

/-- A pass writes exactly if nothing was written since it fetched the target. -/
theorem Ready.answered {q : Nat} {k k' : String} {base : UInt64}
    {found : Except Store.Error (Option UInt64)} {answer : Except Store.Error UInt64}
    {l₁ l₂ : List (Nat × Call)} (h : r.Ready) (served : r.Along Served es)
    (order : r.log es = l₁ ++ (q, .get k found) :: l₂)
    (late : (r.run es).call? e = some (q, .patch k' base answer)) :
    found = .ok (some base) ∧
      (landed l₂ = 0 ∧ answer = .ok (base + 1) ∨
        0 < landed l₂ ∧ ∃ now, base < now ∧ answer = .error (.conflict r.name base now)) := by
  obtain ⟨es₁, e₁, es₂, rfl, -, fetched, rfl⟩ := moment_of_log order
  obtain ⟨served₁, served₂⟩ := along_append.1 served
  have ready := h.run served₁
  rw [run_append, run_cons] at late
  obtain ⟨site, x, hx, ended | ⟨u, stored, rfl, goes⟩⟩ := ready.fetching fetched
  · -- a pass that has ended makes no more calls
    obtain ⟨y, hy, ended⟩ : ∃ y, (((r.run es₁).step e₁).run es₂).racers[q]? = some y ∧
        y.pass.result? ≠ none :=
      racer_run (P := fun p => p.result? ≠ none) (fun _ s hp => Pass.result?_step hp s)
        ⟨x, hx, ended⟩
    obtain ⟨rfl, z, hz, call⟩ := racer_of_call? late
    cases hy.symm.trans hz
    have due := Pass.due_of_step call
    cases hp : y.pass with
    | finished => simp [hp, Pass.due] at due
    | fetching | timing | listing | writing => simp [hp, Pass.result?] at ended
  · have stored' : ((r.run es₁).step e₁).site.store.find? ((r.run es₁).step e₁).name = some u := by
      rw [name_step, site, stored]
    obtain ⟨rfl, v, version, same, answered⟩ :=
      (ready.step served₂.1).late_answer served₂.2 stored' ⟨x, hx, goes⟩ late
    rw [name_step, name_run] at answered
    refine ⟨rfl, ?_⟩
    rcases answered with ⟨agree, written⟩ | ⟨differ, refused⟩
    · rw [agree] at version
      exact .inl ⟨by omega, written⟩
    · have some_landed : 0 < landed (((r.run es₁).step e₁).log es₂) := by
        refine Nat.pos_of_ne_zero fun zero => ?_
        rw [same zero] at differ
        exact absurd rfl differ
      refine .inr ⟨some_landed, v.version, ?_, refused⟩
      rw [UInt64.lt_iff_toNat_lt]
      omega

/-- A write that is refused changes nothing at the site. -/
theorem site_of_refused {base : UInt64} {cause : Store.Error} {n : String}
    (call : r.call? e = some (i, .patch n base (.error cause))) : (r.step e).site = r.site := by
  obtain ⟨rfl, x, hx, call⟩ := racer_of_call? call
  simp only [Race.step, hx]
  cases hp : x.pass with
  | fetching | timing | listing | finished => rfl
  | writing t d result =>
    simp only [hp, Pass.step, Site.patch] at call ⊢
    split at call
    · rfl
    · cases call

end

end Race

/-- A pass lists the members, then another one does and writes, and then the first one writes: that
write is a conflict, and leaves no trace. As a rule a pass writes exactly if nothing was written
since it fetched the target; a pass that finds nothing to write in the meantime is no obstacle. -/
theorem late_write_refused {name : String} {s : Site} {es : List Race.Event}
    (up : s.store.unavailable = false) (served : (Race.new name s).Along Race.Served es) :
    let log := (Race.new name s).log es
    let r := (Race.new name s).run es
    ∀ e q k' base answer, r.call? e = some (q, .patch k' base answer) →
      (∀ p l₁ m l₂ n l₃ k b v l₄,
        log = l₁ ++ (q, .list m) :: (l₂ ++ (p, .list n) :: (l₃ ++ (p, .patch k b (.ok v)) :: l₄)) →
        ∃ found, base < found ∧ answer = .error (.conflict name base found)) ∧
      (∀ l₁ k found l₂, log = l₁ ++ (q, .get k found) :: l₂ →
        found = .ok (some base) ∧
          (Race.landed l₂ = 0 ∧ answer = .ok (base + 1) ∨
            0 < Race.landed l₂ ∧ ∃ now, base < now ∧
              answer = .error (.conflict name base now))) ∧
      ∀ cause, answer = .error cause → (r.step e).site = r.site := by
  intro log r e q k' base answer late
  have ready : (Race.new name s).Ready := ⟨Race.fit_new name s, up⟩
  refine ⟨?_, ?_, ?_⟩
  · intro p l₁ m l₂ n l₃ k b v l₄ order
    exact ready.overtaken served order late
  · intro l₁ k found l₂ order
    exact ready.answered served order late
  · rintro cause rfl
    exact Race.site_of_refused late

/-- A site with one target that has no status yet, and a member without conditions. -/
def healthyFleet : Site := .new (.single "agg") ⟨[⟨"a", ⟨[]⟩⟩]⟩

/-- A pass lists the members while they are well. They fail, a second pass lists them and writes,
and then the first one is about to write. -/
def slowPass : List Race.Event :=
  [.enter, .enter, .move 0, .move 0, .move 0,
    .fleet ⟨[⟨"a", ⟨[.installed .no .applyFailed]⟩⟩]⟩, .clock (.early 5),
    .move 1, .move 1, .move 1, .move 1]

/-- The slow pass meets the version that the other one wrote. -/
theorem late_write_refused_slowPass :
    let r := (Race.new "agg" healthyFleet).run slowPass
    (Race.new "agg" healthyFleet).Along Race.Served slowPass ∧
      ((Race.new "agg" healthyFleet).log slowPass).map (fun c => (c.1, c.2.kind)) =
        [(0, .get), (0, .list), (1, .get), (1, .list), (1, .patch)] ∧
      ∃ answer, r.call? (.move 0) = some (0, .patch "agg" 0 answer) ∧
        (∃ found, 0 < found ∧ answer = .error (.conflict "agg" 0 found)) ∧
        (r.step (.move 0)).site = r.site := by
  have served : (Race.new "agg" healthyFleet).Along Race.Served slowPass := by decide +kernel
  have late := late_write_refused rfl served (.move 0) 0 "agg" 0 _ rfl
  refine ⟨served, by decide +kernel, _, rfl, ?_, late.2.2 _ rfl⟩
  exact late.1 1 [(0, .get "agg" (.ok (some 0)))] _ [(1, .get "agg" (.ok (some 0)))] _ [] _ _ _ []
    rfl

/-- Members that were well and are written down as such fail while a pass lists them, and are well
again when another one does. -/
def recovery : List Race.Event :=
  [.enter, .move 0, .move 0, .move 0, .move 0,
    .fleet ⟨[⟨"a", ⟨[.installed .no .applyFailed]⟩⟩]⟩, .enter, .move 1, .move 1, .move 1,
    .fleet healthyFleet.roster, .enter, .move 2, .move 2, .move 2]

/-- A pass (2) that has listed the members later than another one (1) ends with the target saying
what it has listed, and without a write, since the target says so already. The other pass then
writes over the target what it has listed before. -/
theorem unchanged_pass_overtaken :
    let r := (Race.new "agg" healthyFleet).run recovery
    (Race.new "agg" healthyFleet).Along Race.Served (recovery ++ [.move 1]) ∧
      ((Race.new "agg" healthyFleet).log recovery).map (fun c => (c.1, c.2.kind)) =
        [(0, .get), (0, .list), (0, .patch), (1, .get), (1, .list), (2, .get), (2, .list)] ∧
      (∃ x, r.racers[2]? = some x ∧ x.heard = some healthyFleet.list ∧
        x.pass.result? = some (.ok (some (.healthy 1)))) ∧
      (∃ t ∈ r.site.store.find? "agg", t.Tells healthyFleet.list) ∧
      r.call? (.move 1) = some (1, .patch "agg" 1 (.ok 2)) ∧
      ∃ t ∈ (r.step (.move 1)).site.store.find? "agg", ¬ t.Tells healthyFleet.list := by
  refine ⟨by decide +kernel, by decide +kernel, ⟨_, rfl, rfl, rfl⟩, by decide +kernel, rfl, ?_⟩
  decide +kernel

end FleetHealth

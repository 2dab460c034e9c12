import FleetHealth.Proofs.Pass.Outcome
import FleetHealth.Proofs.Race.Attended
import Mathlib.Data.List.Induction

/-!
Where the status of a target comes from.

All three slots of what is stored were written together, by one pass, after one answer to its listing
(`Attended.Wrote`). That a pass was given the listing that it goes by (`Attended.Heard`) is kept along
a run, beside the place of the service in the race, and a write that succeeds hands it on to the
target. So no slots of two passes are stored together, nor half of what a pass has found out.
-/

namespace FleetHealth

/-! ### What the slots say of one listing -/

theorem mem_failures_iff {ms : List Member} {m : Member} {c : Condition} :
    (m, c) ∈ Report.failures ms ↔ m ∈ ms ∧ c ∈ m.status.conditions ∧ c.Fails := by
  simp [Report.failures, Member.failing, isFailing_iff]

theorem wording_ne_empty : ∀ ts, wording ts ≠ ""
  | [] => by decide
  | [t] => by simp [wording, phrase]
  | t :: u :: ts => by simp [wording]

/-- The combinations that the slots can show. -/
theorem Listing.contents_table (l : Listing) :
    l.contents.progressing.status = .yes ∧
      ¬ (l.contents.degraded.status = .yes ∧ l.contents.available.status = .yes) ∧
      (l.contents.degraded.status = .yes ↔
        l.contents.available.reason = "PO In An Error State") ∧
      (l.contents.degraded.status = .yes → ∃ ms, l = .ok ms ∧ SomeFails ms ∧
        l.contents.available.message = reportMessage ms) := by
  cases l with
  | error text => simp [contents]
  | ok ms =>
    simp only [contents]
    split
    · simp
    · split
      · next fails => exact ⟨rfl, by simp, by simp, fun _ => ⟨ms, rfl, fails, rfl⟩⟩
      · simp

namespace Attended

/-! ### Who wrote what is stored -/

/-- At some moment of the run, pass number `i` was given this answer to its listing. -/
def Heard (start : Attended) (es : List Event) (i : Nat) (l : Listing) : Prop :=
  ∃ before e after n, es = before ++ e :: after ∧
    (start.run before).call? e = some (i, .list n) ∧ (start.run before).race.site.list = l

/-- At some moment of the run, a pass that had been given this listing wrote this status, and raised
the target to this version. -/
def Wrote (start : Attended) (es : List Event) (l : Listing) (c : Composite) (version : UInt64) :
    Prop :=
  ∃ i before e after t result, es = before ++ e :: after ∧ start.Heard before i l ∧
    (start.run before).race.racers[i]?.map Racer.pass = some (.writing t c result) ∧
    (start.run before).call? e = some (i, .patch t.name t.version (.ok version))

section

variable {start m : Attended} {es : List Event} {e : Event} {i : Nat} {l : Listing} {name : String}

theorem Heard.later (h : start.Heard es i l) (e : Event) : start.Heard (es ++ [e]) i l := by
  obtain ⟨before, f, after, n, rfl, call, list⟩ := h
  exact ⟨before, f, after ++ [e], n, by simp, call, list⟩

theorem Wrote.later {c : Composite} {version : UInt64} (h : start.Wrote es l c version)
    (e : Event) : start.Wrote (es ++ [e]) l c version := by
  obtain ⟨i, before, f, after, t, result, rfl, heard⟩ := h
  exact ⟨i, before, f, after ++ [e], t, result, by simp, heard⟩

/-- What the racers go by they were given, what the target says was written after one listing, and
its version counts no more than the writes. -/
structure Unmixed (start : Attended) (target : String) (es : List Event) : Prop where
  name : (start.run es).race.name = target
  seated : (start.run es).Seated
  fit : (start.run es).race.Fit
  heard : ∀ i x l, (start.run es).race.racers[i]? = some x → x.heard = some l → start.Heard es i l
  stored : ∃ u, (start.run es).race.site.store.find? target = some u ∧
    u.version.toNat ≤ (start.run es).race.site.store.patchCount ∧
    (u.status = none ↔ u.version = 0) ∧
    ∀ c ∈ u.status, ∃ l, start.Wrote es l c u.version ∧ c.contents = l.contents

theorem unmixed_new {s : Site} (single : s.store = .single name) (buffer : Nat) :
    (new name buffer s).Unmixed name [] where
  name := rfl
  seated := seated_new name buffer s
  fit := Race.fit_new name s
  heard := by simp [new, Race.new]
  stored := by
    refine ⟨.new name, ?_, by simp [Target.new], by simp [Target.new], by simp [Target.new]⟩
    simp [new, Race.new, single, Store.single, Store.find?, Target.new]

/-- A racer that goes by a listing was given it. -/
theorem Unmixed.heard_step {f : Race.Event} {x : Racer} (h : start.Unmixed name es)
    (call : (start.run es).call? e = (start.run es).race.call? f)
    (hx : ((start.run es).race.step f).racers[i]? = some x) (hl : x.heard = some l) :
    start.Heard (es ++ [e]) i l := by
  rcases Race.racer_of_step hx with before | rfl | ⟨rfl, y, hy, rfl⟩
  · exact (h.heard i x l before hl).later e
  · cases hl
  · obtain ⟨pass, read, heard⟩ := y
    cases pass with
    | fetching | timing | writing | finished => exact (h.heard i _ l hy hl).later e
    | listing t now =>
      refine ⟨es, e, [], (start.run es).race.site.list.toOption.map List.length, rfl, ?_,
        Option.some.inj hl⟩
      rw [call]
      simp only [Race.call?, hy, Option.bind_some, Pass.step, Option.map_some]

/-- What a step of the race makes of the target. -/
theorem Unmixed.stored_step {f : Race.Event} (h : start.Unmixed name es)
    (race : (start.run (es ++ [e])).race = (start.run es).race.step f)
    (call : (start.run es).call? e = (start.run es).race.call? f) (spares : f.Spares name)
    (room : (start.run es).race.site.store.patchCount + 1 < UInt64.size) :
    ∃ u, (start.run (es ++ [e])).race.site.store.find? name = some u ∧
      u.version.toNat ≤ (start.run (es ++ [e])).race.site.store.patchCount ∧
      (u.status = none ↔ u.version = 0) ∧
      ∀ c ∈ u.status, ∃ l, start.Wrote (es ++ [e]) l c u.version ∧ c.contents = l.contents := by
  obtain ⟨u, found, counted, absent, told⟩ := h.stored
  obtain rfl := h.name
  rw [race]
  rcases Race.target_step h.fit spares found with
    ⟨same, -⟩ | ⟨i, answer, now, result, rfl, hx, patched, store⟩
  · refine ⟨u, same, Nat.le_trans counted (Race.patchCount_step _ f), absent, fun c hc => ?_⟩
    obtain ⟨l, wrote, said⟩ := told c hc
    exact ⟨l, wrote.later e, said⟩
  · have raised : (u.version + 1).toNat = u.version.toNat + 1 :=
      Store.version_written (Nat.lt_of_le_of_lt (Nat.succ_le_succ counted) room)
        (answer.composite u.status now)
    rw [store]
    refine ⟨_, Store.find?_afterWrite_self found, ?_, ?_, ?_⟩
    · exact Nat.le_trans (Nat.le_of_eq raised) (Nat.succ_le_succ counted)
    · have positive : u.version + 1 ≠ 0 := by
        intro zero
        rw [zero] at raised
        cases raised
      simp [Store.written, positive]
    · intro c hc
      cases hc
      refine ⟨answer, ⟨i, es, e, [], u, result, rfl, h.heard i _ answer hx rfl, ?_, ?_⟩,
        answer.contents_composite u.status now⟩
      · rw [hx]
        rfl
      · rw [call, patched, Store.name_of_find? found]
        rfl

theorem Unmixed.step (h : start.Unmixed name es) (spares : e.Spares name)
    (room : (start.run es).race.site.store.patchCount + 1 < UInt64.size) :
    start.Unmixed name (es ++ [e]) := by
  have seated := h.seated.step spares
  have concat := start.run_concat es e
  rcases race_step h.seated spares with ⟨same, -⟩ | ⟨f, race, call, spares'⟩
  · have race : (start.run (es ++ [e])).race = (start.run es).race := by rw [concat, same]
    refine ⟨race ▸ h.name, concat ▸ seated, race ▸ h.fit, fun i x l hx hl => ?_, ?_⟩
    · rw [race] at hx
      exact (h.heard i x l hx hl).later e
    · obtain ⟨u, found, counted, absent, told⟩ := h.stored
      rw [race]
      refine ⟨u, found, counted, absent, fun c hc => ?_⟩
      obtain ⟨l, wrote, said⟩ := told c hc
      exact ⟨l, wrote.later e, said⟩
  · rw [← concat] at race
    have only : (start.run es).race.PassesOnly f := by
      refine ⟨.inr fun v hv => ?_, h.name ▸ spares'⟩
      obtain ⟨u, found, counted, -⟩ := h.stored
      rw [h.name, found] at hv
      cases hv
      exact Nat.lt_of_le_of_lt (Nat.succ_le_succ counted) room
    refine ⟨?_, concat ▸ seated, ?_, fun i x l hx hl => ?_, h.stored_step race call spares' room⟩
    · rw [race, Race.name_step, h.name]
    · rw [race]
      exact Race.fit_step only.lawful h.fit
    · rw [race] at hx
      exact h.heard_step call hx hl

theorem seated_run (seated : start.Seated) (spares : ∀ e ∈ es, e.Spares name) :
    (start.run es).Seated := by
  induction es using List.reverseRecOn with
  | nil => exact seated
  | append_singleton es e ih =>
    rw [List.forall_mem_append, List.forall_mem_singleton] at spares
    rw [run_concat]
    exact (ih spares.1).step spares.2

/-- The number of writes never falls. -/
theorem patchCount_step (seated : m.Seated) (spares : e.Spares name) :
    m.race.site.store.patchCount ≤ (m.step e).race.site.store.patchCount := by
  rcases race_step seated spares with ⟨same, -⟩ | ⟨f, race, -⟩
  · exact Nat.le_of_eq (by rw [same])
  · rw [race]
    exact Race.patchCount_step m.race f

/-- While the version can be raised, the target says what one pass was given. -/
theorem unmixed_run (first : start.Unmixed name []) (spares : ∀ e ∈ es, e.Spares name)
    (room : (start.run es).race.site.store.patchCount + 1 < UInt64.size) :
    start.Unmixed name es := by
  induction es using List.reverseRecOn with
  | nil => exact first
  | append_singleton es e ih =>
    rw [List.forall_mem_append, List.forall_mem_singleton] at spares
    obtain ⟨before, last⟩ := spares
    rw [run_concat] at room
    have fewer := patchCount_step (seated_run first.seated before) last
    have room' : (start.run es).race.site.store.patchCount + 1 < UInt64.size :=
      Nat.lt_of_le_of_lt (Nat.succ_le_succ fewer) room
    exact (ih before room').step last room'

end

end Attended

/-- In a race of passes, of which some are a service's, over a target that had no status at first and
that nobody else writes, the target has a status exactly if its version is not zero any more, and all
its slots say what one listing called for. A single pass was given that listing and wrote the status
and the version that are there. So only the combinations of a single listing are ever seen, and a
message of a failure names failing conditions of that listing and nothing else. -/
theorem status_of_one_listing {name : String} {buffer : Nat} {s : Site}
    {es : List Attended.Event} (single : s.store = .single name)
    (spares : ∀ e ∈ es, e.Spares name)
    (room : ((Attended.new name buffer s).run es).race.site.store.patchCount + 1 < UInt64.size) :
    let start := Attended.new name buffer s
    ∃ u, (start.run es).race.site.store.find? name = some u ∧
      (u.status = none ↔ u.version = 0) ∧
      ∀ c ∈ u.status, ∃ l, start.Wrote es l c u.version ∧ c.contents = l.contents ∧
        c.progressing.status = .yes ∧
        ¬ (c.degraded.status = .yes ∧ c.available.status = .yes) ∧
        (c.degraded.status = .yes ↔ c.available.reason = "PO In An Error State") ∧
        (c.degraded.status = .yes → c.available.message ≠ "" ∧
          ∃ ms, ∃ named : List (Member × Condition), l = .ok ms ∧ named ≠ [] ∧
            (∀ x ∈ named, x.1 ∈ ms ∧ x.2 ∈ x.1.status.conditions ∧ x.2.Fails) ∧
            c.available.message = wording (named.map fun x => (x.1.name, x.2.reason))) := by
  intro start
  obtain ⟨u, found, -, absent, told⟩ :=
    (Attended.unmixed_run (Attended.unmixed_new single buffer) spares room).stored
  refine ⟨u, found, absent, fun c hc => ?_⟩
  obtain ⟨l, wrote, said⟩ := told c hc
  obtain ⟨progressing, apart, degraded, fails⟩ := l.contents_table
  rw [← said] at progressing apart degraded fails
  refine ⟨l, wrote, said, progressing, apart, degraded, fun failing => ?_⟩
  obtain ⟨ms, rfl, someFails, message⟩ := fails failing
  have message : c.available.message = wording (troubles ms) := message
  refine ⟨message ▸ wording_ne_empty _, ms, Report.failures ms, rfl, ?_, ?_, ?_⟩
  · exact fun nothing => (failures_eq_nil_iff ms).1 nothing someFails
  · exact fun x hx => mem_failures_iff.1 hx
  · rw [message, troubles_eq]

/-- The pass of the service cannot list the members and writes that; a pass that was called for
directly, and lists them before that write, meets a conflict; the next one finds the store unavailable
when it comes to write, and the last one writes what it has listed. -/
def crossed : List Attended.Event :=
  [.direct .enter, .offer (.member "a"), .start, .turn, .turn, .direct (.move 0), .turn,
    .direct (.outage (some "offline")), .turn, .direct (.outage none), .direct (.move 0),
    .direct (.move 0), .turn, .direct (.move 0), .turn, .shutdown, .direct .enter,
    .direct (.move 2), .direct (.clock (.early 5)), .direct (.move 2), .direct (.move 2),
    .direct (.unavailable true), .direct (.move 2), .direct (.unavailable false), .direct .enter,
    .direct (.move 3), .direct (.move 3), .direct (.move 3), .direct (.move 3)]

/-- The second write is of the failure that the last pass was given. -/
theorem status_of_one_listing_crossed :
    (((Attended.new "agg" 4 troubledSite).run crossed).race.racers.map fun x =>
        x.pass.result?.isSome) = [true, true, true, true] ∧
      ((Attended.new "agg" 4 troubledSite).run crossed).race.site.store.patchCount = 2 ∧
      ∃ u, ((Attended.new "agg" 4 troubledSite).run crossed).race.site.store.find? "agg" = some u ∧
        u.version = 2 ∧ ∃ c ∈ u.status, c.degraded.status = .yes ∧ c.available.message ≠ "" ∧
          ∃ l, (Attended.new "agg" 4 troubledSite).Wrote crossed l c 2 ∧
            c.contents = l.contents := by
  have spares : ∀ e ∈ crossed, e.Spares "agg" := by decide +kernel
  have count :
      ((Attended.new "agg" 4 troubledSite).run crossed).race.site.store.patchCount = 2 := by
    decide +kernel
  have room :
      ((Attended.new "agg" 4 troubledSite).run crossed).race.site.store.patchCount + 1 <
        UInt64.size := by
    rw [count]
    decide +kernel
  obtain ⟨u, found, -, told⟩ := status_of_one_listing rfl spares room
  have stored :
      ∃ v ∈ ((Attended.new "agg" 4 troubledSite).run crossed).race.site.store.find? "agg",
        v.version = 2 ∧ ∃ c ∈ v.status, c.degraded.status = .yes := by
    decide +kernel
  obtain ⟨v, held, second, c, hc, degraded⟩ := stored
  obtain rfl : u = v := Option.some.inj (found.symm.trans held)
  obtain ⟨l, wrote, said, -, -, -, fails⟩ := told c hc
  rw [second] at wrote
  exact ⟨by decide +kernel, count, u, held, second, c, hc, degraded, (fails degraded).1, l, wrote,
    said⟩

end FleetHealth

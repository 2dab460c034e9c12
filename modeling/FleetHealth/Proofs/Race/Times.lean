import FleetHealth.Proofs.Race.Effect

/-!
The times of the slots record the history of their statuses.

Each write of a pass follows the rule of the times with respect to the write before it
(`Chained`), so the time of a slot is the clock reading of the write that last changed its status.
This needs no order of the readings. When the clock does not go back, whatever a pass has fetched
was written no later than the reading that the pass takes (`Race.Timely`), so that no write sets a
time back.
-/

namespace FleetHealth

open FleetHealth.Time (Instant)

/-! ### The order of instants -/

/-- Days decide first, then seconds, then nanoseconds. -/
instance : LE Instant where
  le i j := i.day < j.day ∨ i.day = j.day ∧
    (i.secondOfDay < j.secondOfDay ∨ i.secondOfDay = j.secondOfDay ∧ i.nano ≤ j.nano)

instance (i j : Instant) : Decidable (i ≤ j) :=
  inferInstanceAs (Decidable (_ ∨ _))

theorem Time.Instant.le_iff (i j : Instant) :
    i ≤ j ↔ i.day < j.day ∨ i.day = j.day ∧
      (i.secondOfDay < j.secondOfDay ∨ i.secondOfDay = j.secondOfDay ∧ i.nano ≤ j.nano) :=
  Iff.rfl

theorem Time.Instant.le_refl (i : Instant) : i ≤ i :=
  .inr ⟨rfl, .inr ⟨rfl, Nat.le_refl _⟩⟩

theorem Time.Instant.le_trans {i j k : Instant} (hij : i ≤ j) (hjk : j ≤ k) : i ≤ k := by
  rw [le_iff] at hij hjk ⊢
  omega

/-! ### Histories of writes -/

/-- What was written, with the clock reading of the pass that wrote it. -/
abbrev Write := Composite × Instant

/-- The status before write number `i`; `init` is the one before the first. -/
def statusBefore (init : Option Composite) (ws : List Write) : Nat → Option Composite
  | 0 => init
  | i + 1 => ws[i]?.map Prod.fst

/-- The status after the last write. -/
def statusAfter (init : Option Composite) (ws : List Write) : Option Composite :=
  statusBefore init ws ws.length

/-- Write number `i` changes the status of a part; an absent status differs from every status. -/
def Changes (init : Option Composite) (ws : List Write) (x : Part) (i : Nat) : Prop :=
  ∃ w ∈ ws[i]?, ∀ p ∈ statusBefore init ws i, (p.slot x).status ≠ (w.1.slot x).status

/-- Each write follows the rule of the times, with respect to the status before it. -/
def Chained (init : Option Composite) (ws : List Write) : Prop :=
  ∀ i, ∀ w ∈ ws[i]?, Dated (statusBefore init ws i) w.2 w.1

theorem statusAfter_concat (init : Option Composite) (ws : List Write) (w : Write) :
    statusAfter init (ws ++ [w]) = some w.1 := by
  simp [statusAfter, statusBefore]

theorem statusBefore_concat {init : Option Composite} {ws : List Write} {i : Nat} (h : i ≤ ws.length)
    (w : Write) : statusBefore init (ws ++ [w]) i = statusBefore init ws i := by
  cases i with
  | zero => rfl
  | succ i => rw [statusBefore, statusBefore, List.getElem?_append_left h]

theorem Chained.concat {init : Option Composite} {ws : List Write} {w : Write}
    (h : Chained init ws) (dated : Dated (statusAfter init ws) w.2 w.1) : Chained init (ws ++ [w]) := by
  intro i v hv
  have hi : i < ws.length + 1 := by
    simpa using (List.getElem?_eq_some_iff.1 hv).1
  rw [statusBefore_concat (by omega)]
  rcases Nat.lt_succ_iff_lt_or_eq.1 hi with hi | rfl
  · rw [List.getElem?_append_left hi] at hv
    exact h i v hv
  · have hw : w = v := by simpa using hv
    exact hw ▸ dated

/-- The time of a part after write number `i` is the clock reading of the write that last changed
its status or, if none did, the time that it had at first. -/
def Recorded (init : Option Composite) (ws : List Write) (x : Part) (i : Nat) (since : Instant) :
    Prop :=
  (∃ j ≤ i, Changes init ws x j ∧ (∀ k, j < k → k ≤ i → ¬ Changes init ws x k) ∧
    ∃ v ∈ ws[j]?, since = v.2) ∨
  ((∀ k ≤ i, ¬ Changes init ws x k) ∧ ∃ p ∈ init, since = (p.slot x).since)

/-- A write that does not change the status of a part keeps its time, whatever else it changes. -/
theorem Chained.kept {init : Option Composite} {ws : List Write} (h : Chained init ws) {x : Part}
    {i : Nat} {w : Write} (hw : ws[i]? = some w) (same : ¬ Changes init ws x i) :
    ∃ p ∈ statusBefore init ws i, (w.1.slot x).since = (p.slot x).since := by
  simp only [Changes, not_exists, not_and, Classical.not_forall, Classical.not_not] at same
  obtain ⟨p, hp, hs⟩ := same w hw
  exact ⟨p, hp, (h i w hw).kept p hp x hs⟩

theorem Chained.recorded {init : Option Composite} {ws : List Write} (h : Chained init ws)
    (x : Part) {i : Nat} {w : Write} (hw : ws[i]? = some w) :
    Recorded init ws x i (w.1.slot x).since := by
  -- a change is recorded at once; without one the time is that after the write before
  induction i generalizing w with
  | zero =>
    by_cases hc : Changes init ws x 0
    · obtain ⟨v, hv, hp⟩ := id hc
      cases hw.symm.trans hv
      exact .inl ⟨0, Nat.le_refl 0, hc, by omega, w, hw, (h 0 w hw).fresh x hp⟩
    · obtain ⟨p, hp, hs⟩ := h.kept hw hc
      refine .inr ⟨fun k hk => ?_, p, hp, hs⟩
      rwa [Nat.le_zero.1 hk]
  | succ i ih =>
    by_cases hc : Changes init ws x (i + 1)
    · obtain ⟨v, hv, hp⟩ := id hc
      cases hw.symm.trans hv
      exact .inl ⟨i + 1, Nat.le_refl _, hc, by omega, w, hw, (h (i + 1) w hw).fresh x hp⟩
    · obtain ⟨p, hp, hs⟩ := h.kept hw hc
      obtain ⟨v, hv, rfl⟩ := Option.map_eq_some_iff.1 hp
      have none_since {j : Nat} (hj : ∀ k, j < k → k ≤ i → ¬ Changes init ws x k) :
          ∀ k, j < k → k ≤ i + 1 → ¬ Changes init ws x k := by
        intro k hjk hk
        rcases Nat.le_succ_iff.1 hk with hk | rfl
        · exact hj k hjk hk
        · exact hc
      rw [hs]
      rcases ih hv with ⟨j, hj, hcj, hlast, since⟩ | ⟨hnone, since⟩
      · exact .inl ⟨j, by omega, hcj, none_since hlast, since⟩
      · refine .inr ⟨fun k hk => ?_, since⟩
        rcases Nat.le_succ_iff.1 hk with hk | rfl
        · exact hnone k hk
        · exact hc

/-! ### Runs in which only passes write -/

/-- The write of a deed, if it is one of a pass. -/
def Deed.write? : Deed → Option Write
  | .pass _ now written => some (written, now)
  | .patch .. | .insert _ => none

namespace Race

/-- The writes of the passes, oldest first. -/
def writes (r : Race) : List Write := r.deeds.filterMap Deed.write?

/-- Whether an event is no direct write of the target. -/
def Event.Spares (name : String) : Event → Prop
  | .patch base _ => base.name ≠ name
  | .insert t => t.name ≠ name
  | _ => True

instance (name : String) : (e : Event) → Decidable (e.Spares name)
  | .patch base _ => inferInstanceAs (Decidable (base.name ≠ name))
  | .insert t => inferInstanceAs (Decidable (t.name ≠ name))
  | .enter | .move _ | .fleet _ | .outage _ | .unavailable _ | .clock _ =>
    inferInstanceAs (Decidable True)

/-- Only the passes write the target, as long as its version can be raised. -/
def PassesOnly (r : Race) (e : Event) : Prop := r.HasRoom e ∧ e.Spares r.name

instance (r : Race) (e : Event) : Decidable (r.PassesOnly e) :=
  inferInstanceAs (Decidable (_ ∧ _))

theorem PassesOnly.lawful {r : Race} {e : Event} (h : r.PassesOnly e) : r.Lawful e := by
  refine ⟨h.1, ?_⟩
  cases e with
  | insert t => exact fun ht => absurd ht h.2
  | _ => trivial

/-- What an event does to the target when only passes write it. -/
theorem Effect.target {r r' : Race} {e : Event} (h : Effect r e r') (only : r.PassesOnly e) :
    (r'.writes = r.writes ∧ r'.site.store.find? r.name = r.site.store.find? r.name) ∨
    ∃ t answer now result,
      (⟨.writing t (answer.composite t.status now) result, some now, some answer⟩ : Racer) ∈
        r.racers ∧
      r.site.store.find? r.name = some t ∧
      r'.writes = r.writes ++ [(answer.composite t.status now, now)] ∧
      r'.site.store.find? r.name = some (Store.written t (answer.composite t.status now)) := by
  cases h with
  | none deeds store =>
    refine .inl ⟨by rw [writes, deeds, writes], ?_⟩
    rw [← Store.find?_online, store, Store.find?_online]
  | pass t answer now result racer stored _ deeds store =>
    refine .inr ⟨t, answer, now, result, racer, stored, ?_, ?_⟩
    · simp [writes, deeds, Deed.write?]
    · simp [store, Store.find?_afterWrite, Store.name_of_find? stored]
  | patch stored found _ deeds store =>
    have hn := Store.name_of_find? found
    refine .inl ⟨by simp [writes, deeds, Deed.write?], ?_⟩
    rw [store, Store.find?_afterWrite, if_neg (hn ▸ only.2)]
  | insert deeds store =>
    refine .inl ⟨by simp [writes, deeds, Deed.write?], ?_⟩
    rw [store, Store.find?_insert, if_neg only.2]

/-- The writes follow the rule of the times, and the last of them is what is stored. -/
structure Kept (init : Option Composite) (r : Race) : Prop where
  fit : r.Fit
  chained : Chained init r.writes
  stored : ∃ u ∈ r.site.store.find? r.name, u.status = statusAfter init r.writes

theorem kept_new {name : String} {s : Site} {t : Target} (found : s.store.find? name = some t) :
    (Race.new name s).Kept t.status :=
  ⟨fit_new name s, fun _ _ hw => by simp [new, writes] at hw, t, found, rfl⟩

theorem kept_step {init : Option Composite} {r : Race} {e : Event} (only : r.PassesOnly e)
    (h : r.Kept init) : (r.step e).Kept init := by
  have fit := fit_step only.lawful h.fit
  rcases (effect_step h.fit e).target only with
    ⟨hw, hf⟩ | ⟨t, answer, now, result, -, stored, hw, hf⟩
  · refine ⟨fit, hw ▸ h.chained, ?_⟩
    rw [name_step, hf, hw]
    exact h.stored
  · obtain ⟨u, hu, last⟩ := h.stored
    cases stored.symm.trans hu
    refine ⟨fit, ?_, ?_⟩
    · rw [hw]
      exact h.chained.concat (last ▸ answer.dated_composite t.status now)
    · rw [name_step, hf, hw, statusAfter_concat]
      exact ⟨_, rfl, rfl⟩

/-! ### A clock that does not go back -/

/-- The clock does not go back. -/
def Forward (r : Race) (e : Event) : Prop := r.site.clock ≤ (r.step e).site.clock

instance (r : Race) (e : Event) : Decidable (r.Forward e) :=
  inferInstanceAs (Decidable (r.site.clock ≤ (r.step e).site.clock))

end Race

/-- No slot of the target has a time after this one. -/
def Target.Until (t : Target) (now : Instant) : Prop :=
  ∀ c ∈ t.status, ∀ x, (c.slot x).since ≤ now

theorem Target.Until.mono {t : Target} {now later : Instant} (h : t.Until now)
    (hl : now ≤ later) : t.Until later :=
  fun c hc x => Time.Instant.le_trans (h c hc x) hl

/-- Over a composite status from before, a write at some time sets no slot back. -/
theorem Dated.le {previous : Option Composite} {now : Instant} {c : Composite}
    (h : Dated previous now c) (past : ∀ p ∈ previous, ∀ x, (p.slot x).since ≤ now) (x : Part) :
    (c.slot x).since ≤ now ∧ ∀ p ∈ previous, (p.slot x).since ≤ (c.slot x).since := by
  cases previous with
  | none =>
    rw [h.fresh x (by simp)]
    exact ⟨Time.Instant.le_refl now, fun p hp => (Option.not_mem_none p hp).elim⟩
  | some p =>
    have hp := past p rfl x
    by_cases same : (p.slot x).status = (c.slot x).status
    · rw [h.kept p rfl x same]
      refine ⟨hp, fun q hq => ?_⟩
      cases hq
      exact Time.Instant.le_refl _
    · rw [h.fresh x (by simpa using same)]
      refine ⟨Time.Instant.le_refl now, fun q hq => ?_⟩
      cases hq
      exact hp

/-- What the racer has fetched was written no later than the time that it reads. -/
def Racer.Timely (clock : Instant) (x : Racer) : Prop :=
  match x.pass with
  | .timing t => t.Until clock
  | .listing t now => t.Until now ∧ now ≤ clock
  | .writing t .. => ∀ now ∈ x.read, t.Until now ∧ now ≤ clock
  | .fetching _ | .finished _ => True

theorem Racer.Timely.mono {clock later : Instant} {x : Racer} (h : x.Timely clock)
    (hl : clock ≤ later) : x.Timely later := by
  obtain ⟨pass, read, heard⟩ := x
  cases pass with
  | fetching | finished => trivial
  | timing t => exact Target.Until.mono h hl
  | listing t now => exact ⟨h.1, Time.Instant.le_trans h.2 hl⟩
  | writing t desired result => exact fun now hn => ⟨(h now hn).1, Time.Instant.le_trans (h now hn).2 hl⟩

theorem Racer.Timely.next {name : String} {s : Site} {x : Racer} (fits : x.Fits name s.store)
    (stored : ∀ u ∈ s.store.find? name, u.Until s.clock) (h : x.Timely s.clock) :
    (x.next s).Timely s.clock := by
  cases fits with
  | fetching =>
    simp only [Racer.next, Pass.step]
    cases hg : s.store.get name with
    | error e => trivial
    | ok found =>
      cases found with
      | none => trivial
      | some t => exact stored t (Store.get_eq_ok_some_iff.1 hg).2
  | timing => exact ⟨h, Time.Instant.le_refl _⟩
  | @listing t now heard =>
    simp only [Racer.next, Pass.step, Pass.listed_eq]
    split
    · trivial
    · intro now' hn
      cases hn
      exact h
  | writing | finished => trivial

namespace Race

/-- Neither the stored times nor those that a pass goes by are after the clock. -/
structure Timely (r : Race) : Prop where
  stored : ∀ u ∈ r.site.store.find? r.name, u.Until r.site.clock
  racers : ∀ x ∈ r.racers, x.Timely r.site.clock

/-- What the racer of a write has fetched was written no later than the racer's reading. -/
theorem Timely.racer {r : Race} (h : r.Timely) {t : Target} {now : Instant} {answer : Listing}
    {result : PassResult}
    (hx : (⟨.writing t (answer.composite t.status now) result, some now, some answer⟩ : Racer) ∈
      r.racers) : t.Until now ∧ now ≤ r.site.clock :=
  h.racers _ hx now rfl

theorem timely_step {init : Option Composite} {r : Race} {e : Event} (only : r.PassesOnly e)
    (forward : r.Forward e) (kept : r.Kept init) (h : r.Timely) : (r.step e).Timely := by
  refine ⟨?_, ?_⟩
  · rw [name_step]
    rcases (effect_step kept.fit e).target only with
      ⟨-, hf⟩ | ⟨t, answer, now, result, racer, stored, -, hf⟩
    · rw [hf]
      exact fun u hu => (h.stored u hu).mono forward
    · rw [hf]
      intro u hu c hc x
      cases hu
      cases hc
      obtain ⟨ht, hn⟩ := h.racer racer
      have hc := ((answer.dated_composite t.status now).le ht x).1
      exact Time.Instant.le_trans hc (Time.Instant.le_trans hn forward)
  · intro y hy
    rcases mem_racers_step hy with hy | rfl | ⟨x, hx, rfl⟩
    · exact (h.racers y hy).mono forward
    · trivial
    · exact (Racer.Timely.next (kept.fit x hx) h.stored (h.racers x hx)).mono forward

/-- No slot of the target has an earlier time in the second race than in the first. -/
def Aged (r r' : Race) : Prop :=
  ∀ u ∈ r.site.store.find? r.name, ∀ c ∈ u.status,
    ∃ u' ∈ r'.site.store.find? r.name, ∃ c' ∈ u'.status,
      ∀ x, (c.slot x).since ≤ (c'.slot x).since

theorem aged_refl (r : Race) : r.Aged r :=
  fun u hu c hc => ⟨u, hu, c, hc, fun _ => Time.Instant.le_refl _⟩

theorem Aged.trans {r r' r'' : Race} (name : r'.name = r.name) (h : r.Aged r')
    (h' : r'.Aged r'') : r.Aged r'' := by
  intro u hu c hc
  obtain ⟨u', hu', c', hc', hle⟩ := h u hu c hc
  obtain ⟨u'', hu'', c'', hc'', hle'⟩ := h' u' (name ▸ hu') c' hc'
  exact ⟨u'', name ▸ hu'', c'', hc'', fun x => Time.Instant.le_trans (hle x) (hle' x)⟩

theorem aged_step {init : Option Composite} {r : Race} {e : Event} (only : r.PassesOnly e)
    (kept : r.Kept init) (h : r.Timely) : r.Aged (r.step e) := by
  intro u hu c hc
  rcases (effect_step kept.fit e).target only with
    ⟨-, hf⟩ | ⟨t, answer, now, result, racer, stored, -, hf⟩
  · exact ⟨u, hf ▸ hu, c, hc, fun _ => Time.Instant.le_refl _⟩
  · cases stored.symm.trans hu
    refine ⟨_, hf, _, rfl, fun x => ?_⟩
    exact ((answer.dated_composite u.status now).le (h.racer racer).1 x).2 c hc

theorem aged_run {init : Option Composite} {r : Race} {es : List Event}
    (only : r.Along PassesOnly es) (forward : r.Along Forward es) (kept : r.Kept init)
    (h : r.Timely) : (r.run es).Timely ∧ r.Aged (r.run es) := by
  induction es generalizing r with
  | nil => exact ⟨h, aged_refl r⟩
  | cons e es ih =>
    have timely := timely_step only.1 forward.1 kept h
    obtain ⟨last, aged⟩ := ih only.2 forward.2 (kept_step only.1 kept) timely
    exact ⟨last, (aged_step only.1 kept h).trans (name_step r e) aged⟩

end Race

/-- When only passes write the target, the stored status is always that of the last write, and the
time of each slot after write number `i` is the clock reading of the pass whose write last changed
the status of that slot, or the time from before all writes. If the clock does not go back and the
times at first are not after it, then no stored time is ever after the clock or set back. -/
theorem times_record_changes {name : String} {s : Site} {es : List Race.Event} {t : Target}
    (found : s.store.find? name = some t) (only : (Race.new name s).Along Race.PassesOnly es) :
    let r := (Race.new name s).run es
    (∃ u ∈ r.site.store.find? name, u.status = statusAfter t.status r.writes) ∧
      (∀ i w, r.writes[i]? = some w → ∀ x, Recorded t.status r.writes x i (w.1.slot x).since) ∧
      ((Race.new name s).Along Race.Forward es → t.Until s.clock →
        (∀ u ∈ r.site.store.find? name, u.Until r.site.clock) ∧
        ∀ es₁ es₂, es = es₁ ++ es₂ → ((Race.new name s).run es₁).Aged r) := by
  intro r
  have kept : r.Kept t.status := Race.run_induction (fun _ _ => Race.kept_step) only
    (Race.kept_new found)
  have hn : r.name = name := Race.name_run _ _
  refine ⟨hn ▸ kept.stored, fun i w hw x => kept.chained.recorded x hw, fun forward notAfter => ?_⟩
  have timely : (Race.new name s).Timely :=
    ⟨fun u hu => by cases found.symm.trans hu; exact notAfter, fun x hx => by cases hx⟩
  refine ⟨?_, ?_⟩
  · have h := (Race.aged_run only forward (Race.kept_new found) timely).1.stored
    rwa [hn] at h
  · rintro es₁ es₂ rfl
    obtain ⟨only₁, only₂⟩ := Race.along_append.1 only
    obtain ⟨forward₁, forward₂⟩ := Race.along_append.1 forward
    have kept₁ := Race.run_induction (fun _ _ => Race.kept_step) only₁ (Race.kept_new found)
    have timely₁ := (Race.aged_run only₁ forward₁ (Race.kept_new found) timely).1
    have h := (Race.aged_run only₂ forward₂ kept₁ timely₁).2
    rwa [← Race.run_append] at h

/-- A pass without members that is written late, a pass that it overtakes, a failing member, and
another message of the same member; the clock goes on. -/
def laterAndLater : List Race.Event :=
  [.enter, .enter, .move 0, .move 1, .move 0, .clock (.early 5), .move 1, .move 1,
    .move 0, .move 0, .fleet ⟨[⟨"a", ⟨[.installed .no .applyFailed]⟩⟩]⟩, .move 1, .enter, .move 2,
    .move 2, .move 2, .move 2, .clock (.early 9),
    .fleet ⟨[⟨"b", ⟨[.installed .no .applyFailed]⟩⟩]⟩, .enter, .move 3, .move 3, .unavailable true,
    .move 3, .unavailable false, .move 3]

/-- Three writes, of which the second changes two slots and the third only a message. -/
theorem times_record_changes_laterAndLater :
    quietSite.store.find? "agg" = some (.new "agg") ∧
      (Race.new "agg" quietSite).Along Race.PassesOnly laterAndLater ∧
      (Race.new "agg" quietSite).Along Race.Forward laterAndLater ∧
      (Target.new "agg").Until quietSite.clock ∧
      ((Race.new "agg" quietSite).run laterAndLater).writes.map
          (fun w => (w.1.progressing.since.secondOfDay, w.1.degraded.since.secondOfDay,
            w.1.available.since.secondOfDay, w.2.secondOfDay)) =
        [(0, 0, 0, 0), (0, 5, 5, 5), (0, 5, 5, 9)] ∧
      (∀ i w, ((Race.new "agg" quietSite).run laterAndLater).writes[i]? = some w → ∀ x,
        Recorded none ((Race.new "agg" quietSite).run laterAndLater).writes x i
          (w.1.slot x).since) ∧
      ((Race.new "agg" quietSite).run (laterAndLater.take 12)).Aged
        ((Race.new "agg" quietSite).run laterAndLater) := by
  have found : quietSite.store.find? "agg" = some (.new "agg") := by decide
  have only : (Race.new "agg" quietSite).Along Race.PassesOnly laterAndLater := by decide +kernel
  have forward : (Race.new "agg" quietSite).Along Race.Forward laterAndLater := by decide +kernel
  have atFirst : (Target.new "agg").Until quietSite.clock := by
    intro c hc
    cases hc
  have recorded := times_record_changes found only
  refine ⟨found, only, forward, atFirst, by decide +kernel, recorded.2.1, ?_⟩
  exact (recorded.2.2 forward atFirst).2 _ (laterAndLater.drop 12) (List.take_append_drop _ _).symm

end FleetHealth

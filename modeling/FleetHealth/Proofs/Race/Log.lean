import FleetHealth.Proofs.Race.Times

/-!
The calls of the passes in a race.

`Race.log` lists the calls of the passes in the order in which they are made, each with the number
of the pass and with what was answered. A moment of the log is a moment of the run
(`moment_of_log`), so statements about a race can be made in terms of its calls alone.
-/

namespace FleetHealth

/-- The call is a write that succeeded. -/
def Call.isWrite : Call → Bool
  | .patch _ _ (.ok _) => true
  | _ => false

namespace Race

/-- The call that a pass makes with an event, and the number of the pass. -/
def call? (r : Race) : Event → Option (Nat × Call)
  | .move i => r.racers[i]?.bind fun x => (x.pass.step r.site).2.2.map fun c => (i, c)
  | _ => none

/-- The calls of the passes in a run, oldest first. -/
def log (r : Race) : List Event → List (Nat × Call)
  | [] => []
  | e :: es => (r.call? e).toList ++ (r.step e).log es

/-- How many of the calls are writes that succeeded. -/
def landed (calls : List (Nat × Call)) : Nat := calls.countP fun c => c.2.isWrite

section

variable {r : Race} {e : Event} {x : Racer} {i : Nat} {c : Call}

/-- Each call of a log has its event in the run. -/
theorem moment_of_log {es : List Event} {before after : List (Nat × Call)} {c : Nat × Call}
    (h : r.log es = before ++ c :: after) :
    ∃ es₁ e es₂, es = es₁ ++ e :: es₂ ∧ r.log es₁ = before ∧ (r.run es₁).call? e = some c ∧
      ((r.run es₁).step e).log es₂ = after := by
  induction es generalizing r before with
  | nil => simp [log] at h
  | cons e es ih =>
    rw [log] at h
    cases hc : r.call? e with
    | none =>
      rw [hc] at h
      obtain ⟨es₁, f, es₂, rfl, hb, hf, ha⟩ := ih h
      exact ⟨e :: es₁, f, es₂, rfl, by simpa [log, hc] using hb, hf, ha⟩
    | some d =>
      rw [hc] at h
      cases before with
      | nil =>
        obtain ⟨rfl, ha⟩ := List.cons.inj h
        exact ⟨[], e, es, rfl, rfl, hc, ha⟩
      | cons b before =>
        obtain ⟨rfl, hr⟩ := List.cons.inj h
        obtain ⟨es₁, f, es₂, rfl, hb, hf, ha⟩ := ih hr
        exact ⟨e :: es₁, f, es₂, rfl, by simp [log, hc, hb], hf, ha⟩

/-- A call is made by the racer with that number. -/
theorem racer_of_call? (h : r.call? e = some (i, c)) :
    e = .move i ∧ ∃ x, r.racers[i]? = some x ∧ (x.pass.step r.site).2.2 = some c := by
  cases e with
  | move j =>
    simp only [call?, Option.bind_eq_some_iff, Option.map_eq_some_iff, Prod.mk.injEq] at h
    obtain ⟨x, hx, d, hd, rfl, rfl⟩ := h
    exact ⟨rfl, x, hx, hd⟩
  | _ => cases h

/-- After an event a racer is as it was, or has taken its step. -/
theorem racer_step (hx : r.racers[i]? = some x) :
    (r.step e).racers[i]? = some x ∨
      e = .move i ∧ (r.step e).racers[i]? = some (x.next r.site) := by
  have inside := (List.getElem?_eq_some_iff.1 hx).1
  cases e with
  | enter => exact .inl (by simpa [step, List.getElem?_append_left inside] using hx)
  | fleet | outage | unavailable | clock | insert => exact .inl hx
  | patch base status =>
    cases hp : r.site.store.patch base status <;> exact .inl (by simpa [step, hp] using hx)
  | move j =>
    cases hy : r.racers[j]? with
    | none => exact .inl (by simpa [step, hy] using hx)
    | some y =>
      by_cases same : j = i
      · subst same
        cases hx.symm.trans hy
        refine .inr ⟨rfl, ?_⟩
        simp only [step, hx]
        exact List.getElem?_set_self inside
      · exact .inl (by simpa [step, hy, List.getElem?_set_ne same] using hx)

/-- After an event a racer with a number is the one from before it, a new one, or the one that took
its step. -/
theorem racer_of_step {y : Racer} (hy : (r.step e).racers[i]? = some y) :
    r.racers[i]? = some y ∨ y = .new r.name ∨
      e = .move i ∧ ∃ x, r.racers[i]? = some x ∧ y = x.next r.site := by
  cases hx : r.racers[i]? with
  | some x =>
    rcases racer_step (e := e) hx with same | ⟨he, next⟩
    · exact .inl (same.symm.trans hy)
    · exact .inr (.inr ⟨he, x, rfl, Option.some.inj (hy.symm.trans next)⟩)
  | none =>
    have outside := List.getElem?_eq_none_iff.1 hx
    cases e with
    | enter =>
      have hy : (r.racers ++ [.new r.name])[i]? = some y := hy
      rw [List.getElem?_append_right outside] at hy
      exact .inr (.inl (List.mem_singleton.1 (List.mem_of_getElem? hy)))
    | fleet | outage | unavailable | clock | insert => cases hx.symm.trans hy
    | patch base status =>
      cases hp : r.site.store.patch base status <;> simp [step, hp, hx] at hy
    | move j =>
      cases hz : r.racers[j]? with
      | none => simp [step, hz, hx] at hy
      | some z =>
        have inside := (List.getElem?_eq_some_iff.1 hy).1
        simp only [step, hz, List.length_set] at inside
        exact absurd inside (Nat.not_lt.2 outside)

/-- A racer that has taken its step is put in its place; all others are as they were. -/
theorem mem_racers_move {i : Nat} {y : Racer} (hx : r.racers[i]? = some x)
    (hy : y ∈ (r.step (.move i)).racers) : y ∈ r.racers ∨ y = x.next r.site := by
  have hy : y ∈ r.racers.set i (x.next r.site) := by simpa [step, hx] using hy
  exact List.mem_or_eq_of_mem_set hy

/-- An event that is no move leaves the target, the writes and the racers as they are. -/
theorem spared_step (spares : e.Spares r.name) (still : ∀ i, e ≠ .move i) :
    (r.step e).site.store.find? r.name = r.site.store.find? r.name ∧
      (r.step e).writes = r.writes ∧
      ∀ y ∈ (r.step e).racers, y ∈ r.racers ∨ y = .new r.name := by
  cases e with
  | move i => exact absurd rfl (still i)
  | enter =>
    refine ⟨rfl, rfl, fun y hy => ?_⟩
    exact (List.mem_append.1 hy).imp_right List.mem_singleton.1
  | fleet | outage | unavailable | clock => exact ⟨rfl, rfl, fun y hy => .inl hy⟩
  | insert t =>
    have other : t.name ≠ r.name := spares
    refine ⟨by simp [step, other], by simp [step, writes, Deed.write?], fun y hy => .inl hy⟩
  | patch base status =>
    have other : base.name ≠ r.name := spares
    cases hp : r.site.store.patch base status with
    | error e =>
      refine ⟨by simp [step, hp], by simp [step, hp], fun y hy => .inl ?_⟩
      simpa [step, hp] using hy
    | ok written =>
      obtain ⟨w, store⟩ := written
      obtain ⟨-, stored, found, -, rfl, rfl⟩ := Store.patch_eq_ok_iff.1 hp
      have hn := Store.name_of_find? found
      refine ⟨?_, by simp [step, hp, writes, Deed.write?], fun y hy => .inl ?_⟩
      · simp [step, hp, Store.find?_afterWrite, hn, other]
      · simpa [step, hp] using hy

/-! ### The target and the calls -/

/-- The number of writes never falls. -/
theorem patchCount_step (r : Race) (e : Event) :
    r.site.store.patchCount ≤ (r.step e).site.store.patchCount := by
  have written {base : Target} {status : Composite} {w : Target} {store : Store}
      (h : r.site.store.patch base status = .ok (w, store)) :
      r.site.store.patchCount ≤ store.patchCount := by
    obtain ⟨-, stored, -, -, -, rfl⟩ := Store.patch_eq_ok_iff.1 h
    exact Nat.le_succ _
  cases e with
  | enter | fleet | outage | unavailable | clock | insert => exact Nat.le_refl _
  | patch base status =>
    simp only [step]
    split
    · exact Nat.le_refl _
    · next w store h => exact written h
  | move i =>
    simp only [step]
    split
    · exact Nat.le_refl _
    · next x hx =>
      cases x.pass with
      | fetching | timing | listing | finished => exact Nat.le_refl _
      | writing t desired result =>
        simp only [Pass.step, Site.patch]
        split
        · exact Nat.le_refl _
        · next w store h => exact written h

/-- A racer that leaves the site alone and writes nothing. -/
theorem move_still (hx : r.racers[i]? = some x) (site : (x.pass.step r.site).2.1 = r.site)
    (call : ∀ c ∈ (x.pass.step r.site).2.2, c.isWrite = false) :
    (r.step (.move i)).site = r.site ∧ landed (r.call? (.move i)).toList = 0 := by
  refine ⟨by simp [step, hx, site], ?_⟩
  cases hc : (x.pass.step r.site).2.2 with
  | none => simp [call?, hx, hc, landed]
  | some c => simp [call?, hx, hc, landed, call c hc]

/-- What an event does to the target that only passes write: nothing, unless a pass makes its call
to write over the stored target, and that call is answered by the next version. -/
theorem target_step {u : Target} (fit : r.Fit) (spares : e.Spares r.name)
    (stored : r.site.store.find? r.name = some u) :
    ((r.step e).site.store.find? r.name = some u ∧ landed (r.call? e).toList = 0) ∨
    ∃ i answer now result, e = .move i ∧
      r.racers[i]? =
        some ⟨.writing u (answer.composite u.status now) result, some now, some answer⟩ ∧
      r.call? e = some (i, .patch r.name u.version (.ok (u.version + 1))) ∧
      (r.step e).site.store = r.site.store.afterWrite u (answer.composite u.status now) := by
  by_cases move : ∃ i, e = .move i
  · obtain ⟨i, rfl⟩ := move
    cases hx : r.racers[i]? with
    | none => exact .inl (by simp [step, call?, hx, landed, stored])
    | some x =>
      have still (site : (x.pass.step r.site).2.1 = r.site)
          (call : ∀ c ∈ (x.pass.step r.site).2.2, c.isWrite = false) :
          (r.step (.move i)).site.store.find? r.name = some u ∧
            landed (r.call? (.move i)).toList = 0 := by
        obtain ⟨same, quiet⟩ := move_still hx site call
        exact ⟨by rw [same, stored], quiet⟩
      cases fit x (List.mem_of_getElem? hx) with
      | fetching | timing | listing | finished =>
        exact .inl (still rfl (by simp [Pass.step, Call.isWrite]))
      | @writing t now answer result past differs =>
        cases hp : r.site.store.patch t (answer.composite t.status now) with
        | error cause =>
          refine .inl (still (by simp [Pass.step, Site.patch, hp]) ?_)
          simp [Pass.step, Site.patch, hp, Call.isWrite]
        | ok written =>
          obtain ⟨w, store⟩ := written
          obtain ⟨-, v, found, version, rfl, rfl⟩ := Store.patch_eq_ok_iff.1 hp
          rw [past.1] at found
          -- the versions agree, so what was fetched is the stored target
          obtain rfl := past.eq_of_version found version
          cases stored.symm.trans found
          refine .inr ⟨i, answer, now, result, rfl, hx, ?_, ?_⟩
          · simp [call?, hx, Pass.step, Site.patch, hp, past.1, Store.written]
          · simp [step, hx, Pass.step, Site.patch, hp]
  · simp only [not_exists] at move
    have quiet : r.call? e = none := by
      cases e with
      | move i => exact absurd rfl (move i)
      | _ => rfl
    exact .inl ⟨by rw [(spared_step spares move).1, stored], by rw [quiet]; rfl⟩

end

end Race

end FleetHealth

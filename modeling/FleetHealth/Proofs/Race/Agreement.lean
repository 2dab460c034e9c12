import FleetHealth.Proofs.Pass.Carried
import FleetHealth.Proofs.Race.Log

/-!
Overlapping passes over one fleet agree.

While the listing stays the same, any number of passes write the target at most once among them: the
first to write wins, whoever fetched before that meets a conflict, and whoever fetches later finds
nothing to write, though its clock shows another time. `Race.Settling` is the invariant that says
what each pass can know at any moment.
-/

namespace FleetHealth

open FleetHealth.Time (Instant)

/-- What a racer can be at, when the target was `t` at first, is `u` now, and the listing is always
the same. -/
inductive Racer.Agrees (name : String) (l : Listing) (t u : Target) : Racer → Prop
  | fetching {read : Option Instant} {heard : Option Listing} :
    Agrees name l t u ⟨.fetching name, read, heard⟩
  | timing {v : Target} {read : Option Instant} {heard : Option Listing} (known : v = t ∨ v = u) :
    Agrees name l t u ⟨.timing v, read, heard⟩
  | listing {v : Target} {now : Instant} {heard : Option Listing} (known : v = t ∨ v = u) :
    Agrees name l t u ⟨.listing v now, some now, heard⟩
  /-- Only what was fetched at first can call for a write. -/
  | writing {now : Instant} (differs : ¬ t.Tells l) :
    Agrees name l t u ⟨.writing t (l.composite t.status now) l.answer, some now, some l⟩
  | finished {read : Option Instant} {heard : Option Listing} (said : u.Tells l) :
    Agrees name l t u ⟨.finished l.answer, read, heard⟩

/-- What a pass has written says what its listing called for. -/
theorem Store.written_composite_tells (l : Listing) (t : Target) (now : Instant) :
    (written t (l.composite t.status now)).Tells l :=
  written_tells (l.contents_composite t.status now)

/-- What a racer knows stays right when the target is written for the first time. -/
theorem Racer.Agrees.written {name : String} {l : Listing} {t v : Target} {x : Racer}
    (h : x.Agrees name l t t) (differs : ¬ t.Tells l) : x.Agrees name l t v := by
  cases h with
  | fetching => exact .fetching
  | timing known => exact .timing (.inl (or_self_iff.1 known))
  | listing known => exact .listing (.inl (or_self_iff.1 known))
  | writing => exact .writing differs
  | finished said => exact absurd said differs

namespace Race

/-- The store stays available, the listing stays the same, and only the passes write the target. -/
def Steady (l : Listing) (r : Race) (e : Event) : Prop :=
  e.Spares r.name ∧ (r.step e).site.store.unavailable = false ∧ (r.step e).site.list = l

/-- Some pass makes its call to write. -/
def Patches (r : Race) (e : Event) : Prop := ∃ i, e = .move i ∧ r.Due i .patch

instance : DecidableEq Listing
  | .ok ms, .ok ms' => decidable_of_iff (ms = ms') (by simp)
  | .error text, .error text' => decidable_of_iff (text = text') (by simp)
  | .ok _, .error _ | .error _, .ok _ => isFalse nofun

instance (l : Listing) (r : Race) (e : Event) : Decidable (r.Steady l e) :=
  inferInstanceAs (Decidable (_ ∧ _ ∧ _))

/-- The target was `t` at first and is `u` now: nothing was written yet, or one pass has written
what the listing calls for. -/
structure Settling (l : Listing) (t u : Target) (r : Race) : Prop where
  up : r.site.store.unavailable = false
  list : r.site.list = l
  stored : r.site.store.find? r.name = some u
  history : (u = t ∧ r.writes = []) ∨ ¬ t.Tells l ∧ ∃ now,
    u = Store.written t (l.composite t.status now) ∧ r.writes = [(l.composite t.status now, now)]
  racers : ∀ x ∈ r.racers, x.Agrees r.name l t u

section

variable {l : Listing} {t u v : Target} {r : Race} {e : Event} {x : Racer} {name : String}

/-- If the target said it at first, nothing was ever written. -/
theorem Settling.eq_of_tells (h : r.Settling l t u) (told : t.Tells l) : u = t :=
  (h.history.resolve_right fun wrote => wrote.1 told).1

/-- If the target does not say it now, nothing was written yet. -/
theorem Settling.eq_of_not_tells (h : r.Settling l t u) (differs : ¬ u.Tells l) : u = t := by
  rcases h.history with ⟨same, -⟩ | ⟨-, now, rfl, -⟩
  · exact same
  · exact absurd (Store.written_composite_tells l t now) differs

/-- A racer that is not about to write leaves the site alone and goes on as agreed. -/
theorem Settling.idle (h : r.Settling l t u) (agrees : x.Agrees r.name l t u)
    (idle : x.pass.due ≠ some .patch) :
    (x.pass.step r.site).2.1 = r.site ∧ x.deed? r.site = none ∧
      (x.next r.site).Agrees r.name l t u := by
  cases agrees with
  | writing => exact absurd rfl idle
  | finished said => exact ⟨rfl, rfl, .finished said⟩
  | timing known => exact ⟨rfl, rfl, .listing known⟩
  | fetching =>
    refine ⟨rfl, rfl, ?_⟩
    have answer : r.site.store.get r.name = .ok (some u) := by
      rw [Store.get_of_available h.up, h.stored]
    simpa only [Racer.next, Pass.step, answer] using .timing (.inr rfl)
  | @listing v now heard known =>
    refine ⟨rfl, rfl, ?_⟩
    simp only [Racer.next, Pass.step, Pass.listed_eq, h.list]
    by_cases told : v.Tells l
    · rw [if_pos (Target.carries_composite_iff.2 told)]
      rcases known with rfl | rfl
      · exact .finished (h.eq_of_tells told ▸ told)
      · exact .finished told
    · rw [if_neg (mt Target.carries_composite_iff.1 told)]
      rcases known with rfl | rfl
      · exact .writing told
      · have same := h.eq_of_not_tells told
        rw [same] at told ⊢
        exact .writing told

/-- What comes of a call to write: the first one succeeds, and every later one is a conflict. -/
theorem Settling.write (h : r.Settling l t u) (differs : ¬ t.Tells l) (now : Instant) :
    let x : Racer := ⟨.writing t (l.composite t.status now) l.answer, some now, some l⟩
    (u = t ∧ (x.pass.step r.site).2.1 =
        { r.site with store := r.site.store.afterWrite t (l.composite t.status now) } ∧
      x.deed? r.site = some (.pass l now (l.composite t.status now))) ∨
    (u.Tells l ∧ (x.pass.step r.site).2.1 = r.site ∧ x.deed? r.site = none) := by
  rcases h.history with ⟨rfl, -⟩ | ⟨-, before, rfl, -⟩
  · left
    have found : r.site.store.find? u.name = some u := Store.name_of_find? h.stored ▸ h.stored
    have succeeds := Store.patch_of_version_eq (c := l.composite u.status now) h.up found rfl
    simp [Pass.step, Site.patch, Racer.deed?, succeeds]
  · right
    have found : r.site.store.find? t.name =
        some (Store.written t (l.composite t.status before)) := by
      have hn : t.name = r.name := by simpa [Store.written] using Store.name_of_find? h.stored
      rw [hn, h.stored]
    have other : (Store.written t (l.composite t.status before)).version ≠ t.version := by
      simp [Store.written]
    have fails := Store.patch_of_version_ne (c := l.composite t.status now) h.up found other
    refine ⟨Store.written_composite_tells l t before, ?_⟩
    simp [Pass.step, Site.patch, Racer.deed?, fails]

/-- The target and the writes of a race after a move that leaves the site alone. -/
theorem move_idle {i : Nat} (hx : r.racers[i]? = some x)
    (site : (x.pass.step r.site).2.1 = r.site) (deed : x.deed? r.site = none) :
    (r.step (.move i)).site = r.site ∧ (r.step (.move i)).writes = r.writes := by
  constructor
  · simp [step, hx, site]
  · simp [step, hx, deed, writes]

/-- What an event makes of a race that settles: a call to write leaves a target that says what the
listing calls for, and nothing but the first such call changes the target. -/
def Goes (l : Listing) (t u : Target) (r : Race) (e : Event) : Prop :=
  ∃ v, (r.step e).Settling l t v ∧ (r.Patches e → v.Tells l) ∧
    (u.Tells l ∨ ¬ r.Patches e → v = u ∧ (r.step e).writes = r.writes)

/-- An event by which nothing is written. -/
theorem Settling.stays (h : r.Settling l t u) (steady : r.Steady l e)
    (stored : (r.step e).site.store.find? r.name = r.site.store.find? r.name)
    (writes : (r.step e).writes = r.writes)
    (racers : ∀ y ∈ (r.step e).racers, y.Agrees r.name l t u)
    (said : r.Patches e → u.Tells l) : r.Goes l t u e := by
  refine ⟨u, ⟨steady.2.1, steady.2.2, ?_, ?_, ?_⟩, said, fun _ => ⟨rfl, writes⟩⟩
  · rw [name_step, stored, h.stored]
  · rw [writes]
    exact h.history
  · rw [name_step]
    exact racers

/-- A racer that leaves the site alone. -/
theorem Settling.stays_move {i : Nat} (h : r.Settling l t u) (steady : r.Steady l (.move i))
    (hx : r.racers[i]? = some x) (site : (x.pass.step r.site).2.1 = r.site)
    (deed : x.deed? r.site = none) (next : (x.next r.site).Agrees r.name l t u)
    (said : x.pass.due = some .patch → u.Tells l) : r.Goes l t u (.move i) := by
  obtain ⟨same, unwritten⟩ := move_idle hx site deed
  refine h.stays steady (by rw [same]) unwritten (fun y hy => ?_) ?_
  · rcases mem_racers_move hx hy with hy | rfl
    · exact h.racers y hy
    · exact next
  · rintro ⟨j, hj, due⟩
    cases hj
    exact said (by simpa [Due, hx] using due)

/-- A racer that is about to write. -/
theorem Settling.step_writing {i : Nat} (h : r.Settling l t u) (steady : r.Steady l (.move i))
    {now : Instant} (differs : ¬ t.Tells l)
    (hx : r.racers[i]? =
      some ⟨.writing t (l.composite t.status now) l.answer, some now, some l⟩) :
    r.Goes l t u (.move i) := by
  rcases h.write differs now with ⟨rfl, site, deed⟩ | ⟨said, site, deed⟩
  · have patches : r.Patches (.move i) := ⟨i, rfl, by simp [Due, hx, Pass.due]⟩
    have first : r.writes = [] := by
      rcases h.history with ⟨-, first⟩ | ⟨-, before, same, -⟩
      · exact first
      · exact absurd (same ▸ Store.written_composite_tells l u before) differs
    refine ⟨Store.written u (l.composite u.status now),
      ⟨steady.2.1, steady.2.2, ?_, ?_, ?_⟩, ?_, ?_⟩
    · rw [name_step]
      simp only [Race.step, hx, site]
      exact Store.find?_afterWrite_self h.stored
    · refine .inr ⟨differs, now, rfl, ?_⟩
      simp only [writes] at first
      simp [Race.step, hx, deed, writes, first, Deed.write?]
    · rw [name_step]
      intro y hy
      rcases mem_racers_move hx hy with hy | rfl
      · exact (h.racers y hy).written differs
      · exact .finished (Store.written_composite_tells l u now)
    · exact fun _ => Store.written_composite_tells l u now
    · rintro (told | idle)
      · exact absurd told differs
      · exact absurd patches idle
  · exact h.stays_move steady hx site deed (.finished said) fun _ => said

/-- Only the first call to write changes the target. -/
theorem Settling.step (h : r.Settling l t u) (steady : r.Steady l e) : r.Goes l t u e := by
  by_cases move : ∃ i, e = .move i
  · obtain ⟨i, rfl⟩ := move
    cases hx : r.racers[i]? with
    | none =>
      have same : r.step (.move i) = r := by simp [Race.step, hx]
      refine h.stays steady (by rw [same]) (by rw [same]) (by rw [same]; exact h.racers) ?_
      rintro ⟨j, hj, due⟩
      cases hj
      simp [Due, hx] at due
    | some x =>
      have agrees := h.racers x (List.mem_of_getElem? hx)
      by_cases due : x.pass.due = some .patch
      · cases agrees with
        | fetching | timing | listing | finished => cases due
        | writing differs => exact h.step_writing steady differs hx
      · obtain ⟨site, deed, next⟩ := h.idle agrees due
        exact h.stays_move steady hx site deed next fun late => absurd late due
  · simp only [not_exists] at move
    obtain ⟨stored, writes, racers⟩ := spared_step steady.1 move
    refine h.stays steady stored writes (fun y hy => ?_) ?_
    · rcases racers y hy with hy | rfl
      · exact h.racers y hy
      · exact .fetching
    · rintro ⟨i, hi, -⟩
      exact absurd hi (move i)

/-- What a run makes of a race that settles. -/
theorem Settling.run {es : List Event} (h : r.Settling l t u) (steady : r.Along (Steady l) es) :
    ∃ v, (r.run es).Settling l t v ∧ (¬ r.Along (fun r e => ¬ r.Patches e) es → v.Tells l) ∧
      (u.Tells l ∨ r.Along (fun r e => ¬ r.Patches e) es →
        v = u ∧ (r.run es).writes = r.writes) := by
  induction es generalizing r u with
  | nil => exact ⟨u, h, fun idle => absurd trivial idle, fun _ => ⟨rfl, rfl⟩⟩
  | cons e es ih =>
    obtain ⟨v, h₁, said₁, kept₁⟩ := h.step steady.1
    obtain ⟨w, h₂, said₂, kept₂⟩ := ih h₁ steady.2
    refine ⟨w, h₂, fun busy => ?_, fun idle => ?_⟩
    · by_cases patches : r.Patches e
      · have told := said₁ patches
        rw [(kept₂ (.inl told)).1]
        exact told
      · exact said₂ fun along => busy ⟨patches, along⟩
    · have first := kept₁ (idle.imp_right And.left)
      have rest := kept₂ (idle.imp (fun told => first.1 ▸ told) And.right)
      exact ⟨rest.1.trans first.1, rest.2.trans first.2⟩

end

end Race

/-- Any number of passes over an available store that holds their target, with a listing that always
answers the same and no other writer, in any order of their steps and with any readings of the
clock: at most one write succeeds, by which the version is raised, and every pass that ends has the
answer of the listing. Once one has ended, the target says what the listing calls for and stays the
same whatever passes go on or begin. No write succeeds exactly if the target said so from the first
or no pass has made its call to write. -/
theorem passes_agree {name : String} {s : Site} {l : Listing} {t : Target} {es : List Race.Event}
    (up : s.store.unavailable = false) (list : s.list = l) (found : s.store.find? name = some t)
    (steady : (Race.new name s).Along (Race.Steady l) es) :
    let r := (Race.new name s).run es
    r.writes.length ≤ 1 ∧
      (∃ u ∈ r.site.store.find? name, u.version = t.version + r.writes.length.toUInt64) ∧
      (∀ x ∈ r.racers, ∀ a, x.pass = .finished a → a = l.answer) ∧
      ((∃ x ∈ r.racers, ∃ a, x.pass = .finished a) →
        ∃ u ∈ r.site.store.find? name, (∃ c ∈ u.status, c.contents = l.contents) ∧
          ∀ fs, r.Along (Race.Steady l) fs →
            (r.run fs).site.store.find? name = some u ∧ (r.run fs).writes = r.writes) ∧
      (r.writes = [] ↔ (∃ c ∈ t.status, c.contents = l.contents) ∨
        (Race.new name s).Along (fun r e => ¬ r.Patches e) es) := by
  intro r
  have start : (Race.new name s).Settling l t t :=
    ⟨up, list, found, .inl ⟨rfl, rfl⟩, fun _ hx => (List.not_mem_nil hx).elim⟩
  have hn : r.name = name := Race.name_run _ _
  obtain ⟨u, settling, said, kept⟩ := start.run steady
  refine ⟨?_, ⟨u, hn ▸ settling.stored, ?_⟩, ?_, ?_, ?_⟩
  · rcases settling.history with ⟨-, first⟩ | ⟨-, now, -, once⟩ <;> simp [r, *]
  · rcases settling.history with ⟨rfl, first⟩ | ⟨-, now, rfl, once⟩
    · simp [r, first]
    · simp [r, once, Store.written]
  · rintro x hx a ended
    cases settling.racers x hx with
    | finished said => exact (Pass.finished.inj ended).symm
    | fetching | timing | listing | writing => cases ended
  · rintro ⟨x, hx, a, ended⟩
    have told : u.Tells l := by
      cases settling.racers x hx with
      | finished said => exact said
      | fetching | timing | listing | writing => cases ended
    refine ⟨u, hn ▸ settling.stored, told, fun fs steady' => ?_⟩
    obtain ⟨v, settling', -, kept'⟩ := settling.run steady'
    obtain ⟨rfl, writes⟩ := kept' (.inl told)
    refine ⟨?_, writes⟩
    have stored := settling'.stored
    rwa [Race.name_run, hn] at stored
  · constructor
    · intro first
      refine Classical.or_iff_not_imp_right.2 fun busy => ?_
      rcases settling.history with ⟨rfl, -⟩ | ⟨-, now, -, once⟩
      · exact said busy
      · exact absurd (once.symm.trans first) (by simp)
    · intro idle
      exact (kept idle).2

/-- A site with one target that has no status yet, and a member that fails. -/
def failingFleet : Site := .new (.single "agg") ⟨[⟨"a", ⟨[.installed .no .applyFailed]⟩⟩]⟩

/-- Two passes fetch the same target and read different times; the second of them is the first to
write. A third one comes later. -/
def latecomers : List Race.Event :=
  [.enter, .enter, .move 0, .move 0, .clock (.early 5), .move 1, .move 1, .move 0,
    .move 1, .move 1, .move 0, .enter, .move 2, .clock (.early 9), .move 2, .move 2]

/-- One write, a conflict, and a pass that finds nothing to write. -/
theorem passes_agree_latecomers :
    let r := (Race.new "agg" failingFleet).run latecomers
    (Race.new "agg" failingFleet).Along (Race.Steady failingFleet.list) latecomers ∧
      (r.racers.map fun x => x.pass.result?.isSome) = [true, true, true] ∧
      r.writes.map (fun w => w.2.secondOfDay) = [5] ∧
      (∀ x ∈ r.racers, ∀ a, x.pass = .finished a → a = failingFleet.list.answer) := by
  have found : failingFleet.store.find? "agg" = some (.new "agg") := by decide
  have steady : (Race.new "agg" failingFleet).Along (Race.Steady failingFleet.list) latecomers := by
    decide +kernel
  exact ⟨steady, by decide +kernel, by decide +kernel, (passes_agree rfl rfl found steady).2.2.1⟩

end FleetHealth

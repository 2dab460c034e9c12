import FleetHealth.Proofs.Pass.Contents
import Mathlib.Data.List.Forall2

/-!
What a report lists.

A failing condition has a place: the number of its member and its own number there. `Trail` says of a
list of places that they are those of all failing conditions, each once, in the order of a walk over
the members and their conditions; members hold exactly one such list. `Report.Covers` says that the
two lists of a report go along it. The trail is found by a walk that counts (`findings`), and without
the numbers that walk is the one that the report is made from (`map_findings`).
-/

namespace FleetHealth

/-! ### Places -/

/-- Where a condition stands: the number of its member, and its own number there. -/
structure Place where
  member : Nat
  condition : Nat
  deriving DecidableEq, Repr

/-- The order of a walk over the members and, at each of them, over its conditions. -/
def Place.Before (p q : Place) : Prop :=
  p.member < q.member ∨ p.member = q.member ∧ p.condition < q.condition

/-- At the place stands the condition `c` of the member `m`. -/
def Place.Holds (p : Place) (ms : List Member) (m : Member) (c : Condition) : Prop :=
  ms[p.member]? = some m ∧ m.status.conditions[p.condition]? = some c

/-- The places of the failing conditions: all of them and no others, each once, in the order of a
walk. -/
structure Trail (ms : List Member) (places : List Place) : Prop where
  ordered : places.Pairwise Place.Before
  exact : ∀ p, p ∈ places ↔ ∃ m c, p.Holds ms m c ∧ c.Fails

/-- What is looked at in a member: its name, and the reasons of its conditions. -/
def Member.outline (m : Member) : String × List Reason :=
  (m.name, m.status.conditions.map Condition.reason)

namespace Report

/-- The report on a list of members, which has no entries when there is nothing to report. -/
def on (ms : List Member) : Report :=
  (of? ms).getD ⟨[], []⟩

/-- Entry by entry, the report speaks of the conditions at these places. -/
structure Covers (r : Report) (ms : List Member) (places : List Place) : Prop where
  failing : List.Forall₂ (fun p m => ms[p.member]? = some m) places r.failing
  errors : List.Forall₂ (fun p e => ∃ m c, p.Holds ms m c ∧
    e = m.name ++ " is failing: \"" ++ c.reason.name ++ "\"") places r.errors

section

variable {ms ms' : List Member} {m : Member} {c : Condition} {p : Place}

/-! ### A walk that counts -/

/-- The failing conditions with their places and their members. -/
def findings (ms : List Member) : List (Place × Member × Condition) :=
  ms.zipIdx.flatMap fun (m, i) =>
    (m.status.conditions.zipIdx.filter fun (c, _) => c.isFailing).map fun (c, j) => (⟨i, j⟩, m, c)

theorem mem_findings : (p, m, c) ∈ findings ms ↔ p.Holds ms m c ∧ c.Fails := by
  obtain ⟨i, j⟩ := p
  simp only [findings, List.mem_flatMap, List.mem_map, List.mem_filter, Prod.exists,
    List.mem_zipIdx_iff_getElem?, Prod.mk.injEq, Place.mk.injEq, isFailing_iff, Place.Holds]
  constructor
  · rintro ⟨_, _, there, _, _, ⟨at_place, fails⟩, ⟨rfl, rfl⟩, rfl, rfl⟩
    exact ⟨⟨there, at_place⟩, fails⟩
  · rintro ⟨⟨there, at_place⟩, fails⟩
    exact ⟨m, i, there, c, j, ⟨at_place, fails⟩, ⟨rfl, rfl⟩, rfl, rfl⟩

/-- Numbers grow along a list that is numbered. -/
theorem pairwise_zipIdx {α : Type} (xs : List α) : xs.zipIdx.Pairwise fun x y => x.2 < y.2 := by
  rw [← List.pairwise_map, List.zipIdx_map_snd]
  exact List.pairwise_lt_range'

theorem ordered_findings (ms : List Member) :
    (findings ms).Pairwise fun x y => x.1.Before y.1 := by
  refine List.pairwise_flatMap.2 ⟨?_, (pairwise_zipIdx ms).imp ?_⟩
  · rintro ⟨m, i⟩ -
    refine List.pairwise_map.2 (List.Pairwise.filter _ ?_)
    exact (pairwise_zipIdx m.status.conditions).imp fun later => .inr ⟨rfl, later⟩
  · rintro ⟨m, i⟩ ⟨m', i'⟩ later x hx y hy
    obtain ⟨_, -, rfl⟩ := List.mem_map.1 hx
    obtain ⟨_, -, rfl⟩ := List.mem_map.1 hy
    exact .inl later

/-- Without the numbers, the walk is that of the report. -/
theorem map_findings (ms : List Member) : (findings ms).map Prod.snd = failures ms := by
  have conditions (m : Member) (i : Nat) :
      ((m.status.conditions.zipIdx.filter fun (c, _) => c.isFailing).map fun (c, j) =>
        ((⟨i, j⟩ : Place), m, c)).map Prod.snd = m.failing.map fun c => (m, c) := by
    rw [Member.failing, ← List.zipIdx_map_fst 0 m.status.conditions, List.filter_map,
      List.zipIdx_map_fst, List.map_map, List.map_map]
    rfl
  rw [findings, List.map_flatMap]
  simp only [conditions]
  rw [failures, ← List.zipIdx_map_fst 0 ms, List.flatMap_map, List.zipIdx_map_fst]

/-- No members have two trails. -/
theorem trail_unique {places places' : List Place} (h : Trail ms places) (h' : Trail ms places') :
    places = places' := by
  have apart {p q : Place} (before : p.Before q) : ¬ q.Before p := by
    unfold Place.Before at before ⊢
    omega
  have nodup {places : List Place} (h : Trail ms places) : places.Nodup := by
    refine h.ordered.imp ?_
    rintro p _ before rfl
    exact apart before before
  have perm : places.Perm places' := by
    rw [List.perm_ext_iff_of_nodup (nodup h) (nodup h')]
    exact fun p => (h.exact p).trans (h'.exact p).symm
  exact perm.eq_of_pairwise (fun p q _ _ before after => absurd after (apart before)) h.ordered
    h'.ordered

theorem trail_findings (ms : List Member) : Trail ms ((findings ms).map Prod.fst) where
  ordered := List.pairwise_map.2 (ordered_findings ms)
  exact p := by
    simp only [List.mem_map, Prod.exists, exists_and_right, exists_eq_right, mem_findings]

/-! ### The report along the trail -/

theorem on_eq (ms : List Member) :
    on ms = ⟨(failures ms).map Prod.fst, (failures ms).map fun (m, c) => describe m c⟩ := by
  rw [on, of?]
  split
  · next nothing => rw [nothing]; rfl
  · rfl

theorem covers_findings (ms : List Member) : (on ms).Covers ms ((findings ms).map Prod.fst) where
  failing := by
    rw [on_eq, ← map_findings, List.map_map, List.forall₂_map_left_iff, List.forall₂_map_right_iff,
      List.forall₂_same]
    rintro ⟨p, m, c⟩ found
    exact (mem_findings.1 found).1.1
  errors := by
    rw [on_eq, ← map_findings, List.forall₂_map_left_iff, List.forall₂_map_right_iff,
      List.forall₂_map_right_iff, List.forall₂_same]
    rintro ⟨p, m, c⟩ found
    exact ⟨m, c, (mem_findings.1 found).1, rfl⟩

/-- A report on something has an entry. -/
theorem findings_ne_nil {r : Report} (reported : of? ms = some r) : findings ms ≠ [] := by
  intro nothing
  have unfailing : failures ms = [] := by rw [← map_findings, nothing, List.map_nil]
  rw [of?, unfailing] at reported
  cases reported

/-! ### What a report hangs on -/

theorem failures_append (ms ms' : List Member) :
    failures (ms ++ ms') = failures ms ++ failures ms' :=
  List.flatMap_append

theorem failures_healthy (healthy : ∀ c ∈ m.status.conditions, ¬ c.Fails) : failures [m] = [] := by
  refine (failures_eq_nil_iff [m]).2 ?_
  rintro ⟨m', here, c, mem, fails⟩
  obtain rfl := List.mem_singleton.1 here
  exact healthy c mem fails

/-- A condition fails at a place exactly if the outline of its member has such a reason there. -/
theorem fails_at_iff (ms : List Member) (p : Place) :
    (∃ m c, p.Holds ms m c ∧ c.Fails) ↔
      ∃ o ∈ (ms.map Member.outline)[p.member]?, ∃ reason ∈ o.2[p.condition]?,
        reason = .sourceFailed ∨ reason = .applyFailed := by
  simp only [Place.Holds, Condition.Fails, Member.outline, List.getElem?_map, Option.mem_def,
    Option.map_eq_some_iff]
  constructor
  · rintro ⟨m, c, ⟨there, at_place⟩, fails⟩
    exact ⟨m.outline, ⟨m, there, rfl⟩, c.reason, by simp [Member.outline, at_place], fails⟩
  · rintro ⟨_, ⟨m, there, rfl⟩, reason, at_place, fails⟩
    simp only [List.getElem?_map, Option.map_eq_some_iff] at at_place
    obtain ⟨c, at_place, rfl⟩ := at_place
    exact ⟨m, c, ⟨there, at_place⟩, fails⟩

theorem trail_congr (same : ms'.map Member.outline = ms.map Member.outline) (places : List Place) :
    Trail ms' places ↔ Trail ms places := by
  have fails (p : Place) : (∃ m c, p.Holds ms' m c ∧ c.Fails) ↔
      ∃ m c, p.Holds ms m c ∧ c.Fails := by
    rw [fails_at_iff, fails_at_iff, same]
  constructor
  · rintro ⟨ordered, exact⟩
    exact ⟨ordered, fun p => (exact p).trans (fails p)⟩
  · rintro ⟨ordered, exact⟩
    exact ⟨ordered, fun p => (exact p).trans (fails p).symm⟩

theorem troubles_outline (ms : List Member) :
    troubles ms = (ms.map Member.outline).flatMap fun (name, reasons) =>
      (reasons.filter Reason.isFailure).map fun reason => (name, reason) := by
  rw [troubles_eq, failures, List.map_flatMap, List.flatMap_map]
  refine List.flatMap_congr fun m _ => ?_
  show _ = ((m.status.conditions.map Condition.reason).filter Reason.isFailure).map fun reason =>
    (m.name, reason)
  rw [Member.failing, List.filter_map, List.map_map, List.map_map]
  rfl

/-- The names and the texts of a report are those of the troubles. -/
theorem on_troubles (ms : List Member) :
    (on ms).failing.map Member.name = (troubles ms).map Prod.fst ∧
      (on ms).errors = (troubles ms).map fun (name, reason) =>
        name ++ " is failing: \"" ++ reason.name ++ "\"" := by
  rw [on_eq, troubles_eq]
  simp only [List.map_map]
  exact ⟨rfl, rfl⟩

end

end Report

/-- Whatever the members. There is no report exactly if no condition means failure. Otherwise the two
lists of the report go along the trail of the failing conditions: entry by entry they have the member
that stands there and what is said of its condition. The report on members and others after them has
the entries of the one and then of the other. Members that differ in nothing but the kinds, the
statuses and the messages of conditions have the same trail, names and texts; and a member without a
failing condition may as well be missing. -/
theorem report_covers_trail (ms : List Member) :
    (Report.of? ms = none ↔ ∀ m ∈ ms, ∀ c ∈ m.status.conditions,
      c.reason ≠ .sourceFailed ∧ c.reason ≠ .applyFailed) ∧
    (∃! places, Trail ms places) ∧
    (∀ r places, Report.of? ms = some r → Trail ms places → places ≠ [] ∧ r.Covers ms places) ∧
    (∀ ms', Report.on (ms ++ ms') = ⟨(Report.on ms).failing ++ (Report.on ms').failing,
      (Report.on ms).errors ++ (Report.on ms').errors⟩) ∧
    (∀ ms', ms'.map Member.outline = ms.map Member.outline →
      (Report.of? ms' = none ↔ Report.of? ms = none) ∧
      (∀ places, Trail ms' places ↔ Trail ms places) ∧
      (Report.on ms').failing.map Member.name = (Report.on ms).failing.map Member.name ∧
      (Report.on ms').errors = (Report.on ms).errors) ∧
    ∀ before m after, ms = before ++ m :: after → (∀ c ∈ m.status.conditions, ¬ c.Fails) →
      Report.of? ms = Report.of? (before ++ after) := by
  have found := Report.trail_findings ms
  refine ⟨?_, ⟨_, found, fun places trail => Report.trail_unique trail found⟩, ?_, ?_, ?_, ?_⟩
  · rw [of?_eq_none_iff]
    simp only [SomeFails, Condition.Fails, not_exists, not_and, not_or]
  · intro r places reported trail
    have same : Report.on ms = r := by rw [Report.on, reported]; rfl
    obtain rfl := Report.trail_unique trail found
    exact ⟨mt List.map_eq_nil_iff.1 (Report.findings_ne_nil reported),
      same ▸ Report.covers_findings ms⟩
  · intro ms'
    simp only [Report.on_eq, Report.failures_append, List.map_append]
  · intro ms' same
    have troubles : troubles ms' = troubles ms := by
      rw [Report.troubles_outline, Report.troubles_outline, same]
    refine ⟨?_, Report.trail_congr same, ?_, ?_⟩
    · rw [of?_eq_none_iff, of?_eq_none_iff, ← failures_eq_nil_iff, ← failures_eq_nil_iff,
        ← List.map_eq_nil_iff, ← troubles_eq, troubles, troubles_eq, List.map_eq_nil_iff]
    · rw [(Report.on_troubles ms').1, (Report.on_troubles ms).1, troubles]
    · rw [(Report.on_troubles ms').2, (Report.on_troubles ms).2, troubles]
  · rintro before m after rfl healthy
    have apart : before ++ m :: after = before ++ ([m] ++ after) := rfl
    simp only [Report.of?, apart, Report.failures_append, Report.failures_healthy healthy,
      List.nil_append]

/-- Two members of one name with a healthy one between them. -/
def namesakes : List Member :=
  [⟨"a", ⟨[.installed .no .sourceFailed, .installed .yes .applySuccessful,
    .installed .no .applyFailed]⟩⟩, ⟨"b", ⟨[.installed .yes .applySuccessful]⟩⟩,
    ⟨"a", ⟨[⟨"Ready", .yes, .applyFailed, "out of memory"⟩]⟩⟩]

/-- The first of them fails twice and is listed twice; the second one is listed as itself, with the
same text. In other words or without the healthy member, the texts are those. -/
theorem report_covers_trail_namesakes :
    let places : List Place := [⟨0, 0⟩, ⟨0, 2⟩, ⟨2, 0⟩]
    let errors := ["a is failing: \"SourceFailed\"", "a is failing: \"ApplyFailed\"",
      "a is failing: \"ApplyFailed\""]
    let r : Report := ⟨[namesakes[0], namesakes[0], namesakes[2]], errors⟩
    let plain := namesakes.map fun m => (⟨m.name, ⟨m.status.conditions.map fun c =>
      .installed .unknown c.reason⟩⟩ : Member)
    Trail namesakes places ∧ Report.of? namesakes = some r ∧ r.Covers namesakes places ∧
      (Report.on plain).errors = errors ∧
      Report.of? [namesakes[0], namesakes[2]] = some r := by
  intro places errors r plain
  have reported : Report.of? namesakes = some r := by decide
  have trail : Trail namesakes places := Report.trail_findings namesakes
  obtain ⟨-, -, covered, -, reworded, healthy⟩ := report_covers_trail namesakes
  refine ⟨trail, reported, (covered r places reported trail).2, ?_, ?_⟩
  · rw [(reworded plain (by decide)).2.2.2, Report.on, reported]
    rfl
  · rw [← reported]
    exact (healthy [namesakes[0]] _ [namesakes[2]] rfl (by decide)).symm

end FleetHealth

import FleetHealth.Pass

/-!
What a pass has to say, stated by the answer to its listing alone.

`Listing.answer` and `Listing.contents` are tables: for each kind of listing, what the pass answers
and what the three slots say. The message on failing conditions is spelled out (`wording`), and
`message_of_report` says that it is what the report folds its entries into. `Dated` is the rule of the
times. Together they leave no choice (`Dated.unique`), and `result_ofListing`, `contents_composite`
and `dated_composite` say that a pass follows them.
-/

namespace FleetHealth

open FleetHealth.Time (Instant)

/-! ### Parts and contents of a composite status -/

/-- The three parts of a composite status. -/
inductive Part
  | progressing
  | degraded
  | available
  deriving DecidableEq, Repr

/-- The slot of a part. -/
def Composite.slot (c : Composite) : Part → Slot
  | .progressing => c.progressing
  | .degraded => c.degraded
  | .available => c.available

theorem Composite.ext_slot {c d : Composite} (h : ∀ x, c.slot x = d.slot x) : c = d := by
  obtain ⟨cp, cd, ca⟩ := c
  obtain ⟨dp, dd, da⟩ := d
  have hp : cp = dp := h .progressing
  have hd : cd = dd := h .degraded
  have ha : ca = da := h .available
  rw [hp, hd, ha]

/-- What a slot says, without the time. -/
def Slot.entry (s : Slot) : Entry := ⟨s.status, s.reason, s.message⟩

/-- What a composite status says, without the times. -/
structure Contents where
  progressing : Entry
  degraded : Entry
  available : Entry
  deriving DecidableEq, Repr

/-- The contents of a composite status. -/
def Composite.contents (c : Composite) : Contents :=
  ⟨c.progressing.entry, c.degraded.entry, c.available.entry⟩

theorem Composite.entry_of_contents {c d : Composite} (h : c.contents = d.contents) (x : Part) :
    (c.slot x).entry = (d.slot x).entry := by
  simp only [contents, Contents.mk.injEq] at h
  obtain ⟨hp, hd, ha⟩ := h
  cases x with
  | progressing => exact hp
  | degraded => exact hd
  | available => exact ha

/-- The rule of the times: a slot whose status the previous composite has too keeps the time that it
has there, and every other slot has the time of writing. -/
structure Dated (previous : Option Composite) (now : Instant) (c : Composite) : Prop where
  kept : ∀ p ∈ previous, ∀ x, (p.slot x).status = (c.slot x).status →
    (c.slot x).since = (p.slot x).since
  fresh : ∀ x, (∀ p ∈ previous, (p.slot x).status ≠ (c.slot x).status) → (c.slot x).since = now

/-- Contents and the rule of the times leave no choice. -/
theorem Dated.unique {previous : Option Composite} {now : Instant} {c d : Composite}
    (hc : Dated previous now c) (hd : Dated previous now d) (h : c.contents = d.contents) :
    c = d := by
  apply Composite.ext_slot
  intro x
  have he := Composite.entry_of_contents h x
  have hs : (c.slot x).status = (d.slot x).status := congrArg Entry.status he
  have ht : (c.slot x).since = (d.slot x).since := by
    cases previous with
    | none => rw [hc.fresh x (by simp), hd.fresh x (by simp)]
    | some p =>
      by_cases hp : (p.slot x).status = (c.slot x).status
      · rw [hc.kept p rfl x hp, hd.kept p rfl x (hp.trans hs)]
      · rw [hc.fresh x (by simpa using hp), hd.fresh x (by simpa [← hs] using hp)]
  simp only [Slot.entry, Entry.mk.injEq] at he
  obtain ⟨h₁, h₂, h₃⟩ := he
  cases hcx : c.slot x
  cases hdx : d.slot x
  simp_all

/-! ### What a listing calls for -/

/-- The reason of the condition is one of the two that mean failure. -/
def Condition.Fails (c : Condition) : Prop :=
  c.reason = .sourceFailed ∨ c.reason = .applyFailed

instance (c : Condition) : Decidable c.Fails :=
  inferInstanceAs (Decidable (_ ∨ _))

/-- Some condition of some member means failure. -/
def SomeFails (ms : List Member) : Prop :=
  ∃ m ∈ ms, ∃ c ∈ m.status.conditions, c.Fails

instance (ms : List Member) : Decidable (SomeFails ms) :=
  inferInstanceAs (Decidable (∃ m ∈ ms, ∃ c ∈ m.status.conditions, c.Fails))

/-- The failing conditions on a walk over the members: the name of the member and the reason. -/
def troubles (ms : List Member) : List (String × Reason) :=
  ms.flatMap fun m => (m.status.conditions.filter (·.Fails)).map fun c => (m.name, c.reason)

/-- What is said of a trouble. -/
def phrase (t : String × Reason) : String :=
  t.1 ++ " is failing: \"" ++ t.2.name ++ "\""

/-- The text on troubles: a single one as it is, and several between brackets with commas. -/
def wording : List (String × Reason) → String
  | [t] => phrase t
  | ts => "[" ++ ", ".intercalate (ts.map phrase) ++ "]"

/-- The message of the report on the members, of whom some are failing. -/
def reportMessage (ms : List Member) : String :=
  wording (troubles ms)

/-- What a pass answers. -/
def Listing.answer : Listing → PassResult
  | .error text => .error (.members text)
  | .ok ms =>
    if ms = [] then .ok (some .noMembers)
    else if SomeFails ms then .ok (some (.failing ((troubles ms).map Prod.fst) (reportMessage ms)))
    else .ok (some (.healthy ms.length))

/-- What the three slots say. -/
def Listing.contents : Listing → Contents
  | .error _ => ⟨⟨.yes, "", ""⟩, ⟨.no, "", ""⟩, ⟨.no, "", ""⟩⟩
  | .ok ms =>
    if ms = [] then ⟨⟨.yes, "", ""⟩, ⟨.no, "", ""⟩, ⟨.yes, "No POs Found", ""⟩⟩
    else if SomeFails ms then
      ⟨⟨.yes, "", ""⟩, ⟨.yes, "", ""⟩, ⟨.no, "PO In An Error State", reportMessage ms⟩⟩
    else
      ⟨⟨.yes, "", ""⟩, ⟨.no, "", ""⟩,
        ⟨.yes, "POs Are Healthy", "All POs in a successful state"⟩⟩

/-! ### Reports and troubles -/

theorem SomeFails.ne_nil {ms : List Member} (h : SomeFails ms) : ms ≠ [] := by
  obtain ⟨m, mem, -⟩ := h
  exact List.ne_nil_of_mem mem

theorem isFailing_iff (c : Condition) : c.isFailing = true ↔ c.Fails := by
  obtain ⟨kind, status, reason, message⟩ := c
  cases reason <;> simp [Condition.isFailing, Reason.isFailure, Reason.failures, Condition.Fails]

/-- The troubles are the failures of the report, said by name and reason. -/
theorem troubles_eq (ms : List Member) :
    troubles ms = (Report.failures ms).map fun (m, c) => (m.name, c.reason) := by
  have hf (m : Member) : m.status.conditions.filter (·.Fails) = m.failing := by
    refine List.filter_congr fun c _ => ?_
    rw [Bool.eq_iff_iff, decide_eq_true_iff, isFailing_iff]
  simp only [troubles, Report.failures, hf, List.map_flatMap, List.map_map, Function.comp_def]

theorem failures_eq_nil_iff (ms : List Member) : Report.failures ms = [] ↔ ¬ SomeFails ms := by
  simp only [Report.failures, Member.failing, List.flatMap_eq_nil_iff, List.map_eq_nil_iff,
    List.filter_eq_nil_iff, isFailing_iff, SomeFails]
  grind

/-- There is a report exactly if some condition means failure. -/
theorem of?_eq_none_iff (ms : List Member) : Report.of? ms = none ↔ ¬ SomeFails ms := by
  rw [← failures_eq_nil_iff, Report.of?]
  split <;> simp_all

/-- A report is put together from the failures. -/
theorem report_eq {ms : List Member} {r : Report} (h : Report.of? ms = some r) :
    r = ⟨(Report.failures ms).map Prod.fst,
      (Report.failures ms).map fun (m, c) => Report.describe m c⟩ := by
  rw [Report.of?] at h
  split at h
  · cases h
  · cases h
    rfl

theorem names_of_report {ms : List Member} {r : Report} (h : Report.of? ms = some r) :
    r.failing.map Member.name = (troubles ms).map Prod.fst := by
  rw [report_eq h, troubles_eq, List.map_map, List.map_map]
  rfl

theorem errors_of_report {ms : List Member} {r : Report} (h : Report.of? ms = some r) :
    r.errors = (troubles ms).map phrase := by
  rw [report_eq h, troubles_eq, List.map_map]
  rfl

theorem fold_phrases : ∀ ts, Report.fold (ts.map phrase) = wording ts
  | [] => rfl
  | [_] => rfl
  | _ :: _ :: _ => rfl

/-- The message of a report is the text on the troubles. -/
theorem message_of_report {ms : List Member} {r : Report} (h : Report.of? ms = some r) :
    r.message = reportMessage ms := by
  rw [Report.message, errors_of_report h, fold_phrases, reportMessage]

/-! ### Assessments -/

/-- The answer of a pass that comes to an assessment. -/
def Assessment.result (a : Assessment) : PassResult :=
  match a.verdict with
  | .error text => .error (.members text)
  | .ok v => .ok (some v)

/-- The composite status that a pass with this listing comes to. -/
def Listing.composite (l : Listing) (previous : Option Composite) (now : Instant) : Composite :=
  (Assessment.ofListing l).composite previous now

/-- The three ways in which a list of members can be assessed. -/
theorem ofListing_ok (ms : List Member) :
    (ms = [] ∧ Assessment.ofListing (.ok ms) = .empty) ∨
    (ms ≠ [] ∧ SomeFails ms ∧ ∃ r, Report.of? ms = some r ∧
      Assessment.ofListing (.ok ms) = .failing r) ∨
    (ms ≠ [] ∧ ¬ SomeFails ms ∧ Assessment.ofListing (.ok ms) = .healthy ms.length) := by
  cases ms with
  | nil => exact .inl ⟨rfl, rfl⟩
  | cons m ms =>
    right
    by_cases hs : SomeFails (m :: ms)
    · obtain ⟨r, hr⟩ := Option.ne_none_iff_exists'.1 fun hn => (of?_eq_none_iff _).1 hn hs
      exact .inl ⟨by simp, hs, r, hr, by simp [Assessment.ofListing, hr]⟩
    · have hr := (of?_eq_none_iff _).2 hs
      exact .inr ⟨by simp, hs, by simp [Assessment.ofListing, hr]⟩

/-- A pass answers what the table says. -/
theorem result_ofListing (l : Listing) : (Assessment.ofListing l).result = l.answer := by
  cases l with
  | error text => rfl
  | ok ms =>
    rcases ofListing_ok ms with ⟨rfl, h⟩ | ⟨hne, hs, r, hr, h⟩ | ⟨hne, hs, h⟩
    · rfl
    · simp [h, Assessment.result, Assessment.verdict, Listing.answer, hne, hs, names_of_report hr,
        message_of_report hr]
    · simp [h, Assessment.result, Assessment.verdict, Listing.answer, hne, hs]

/-! ### Drafts -/

/-- A finished draft says what it was told last. -/
theorem Draft.contents_finish (d : Draft) :
    d.finish.contents = ⟨d.progressing, d.degraded, d.available⟩ := rfl

/-- A finished draft follows the rule of the times. -/
theorem Draft.dated_finish (d : Draft) : Dated d.previous d.now d.finish := by
  obtain ⟨previous, now, progressing, degraded, available⟩ := d
  cases previous with
  | none => exact ⟨fun p hp => (Option.not_mem_none p hp).elim, fun x _ => by cases x <;> rfl⟩
  | some p =>
    refine ⟨fun q hq x hx => ?_, fun x hx => ?_⟩
    · cases hq
      cases x <;> exact if_pos hx
    · have hp := hx p rfl
      cases x <;> exact if_neg hp

theorem Draft.previous_apply (d : Draft) (c : Draft.Call) : (d.apply c).previous = d.previous := by
  cases c <;> rfl

theorem Draft.now_apply (d : Draft) (c : Draft.Call) : (d.apply c).now = d.now := by
  cases c <;> rfl

/-- Calls on a draft change neither the composite before it nor its time. -/
theorem Draft.previous_now_foldl (cs : List Draft.Call) (d : Draft) :
    (cs.foldl Draft.apply d).previous = d.previous ∧ (cs.foldl Draft.apply d).now = d.now := by
  induction cs generalizing d with
  | nil => exact ⟨rfl, rfl⟩
  | cons c cs ih =>
    rw [List.foldl_cons, (ih _).1, (ih _).2, Draft.previous_apply, Draft.now_apply]
    exact ⟨rfl, rfl⟩

/-- What calls lead to follows the rule of the times. -/
theorem Draft.dated_foldl (previous : Option Composite) (now : Instant) (cs : List Draft.Call) :
    Dated previous now (cs.foldl Draft.apply (.new previous now)).finish := by
  have h := Draft.dated_finish (cs.foldl Draft.apply (.new previous now))
  rw [(Draft.previous_now_foldl _ _).1, (Draft.previous_now_foldl _ _).2] at h
  exact h

/-- What a pass comes to follows the rule of the times. -/
theorem Listing.dated_composite (l : Listing) (previous : Option Composite) (now : Instant) :
    Dated previous now (l.composite previous now) :=
  Draft.dated_foldl previous now (Assessment.opening ++ (Assessment.ofListing l).calls)

/-- What a pass comes to says what the table says. -/
theorem Listing.contents_composite (l : Listing) (previous : Option Composite) (now : Instant) :
    (l.composite previous now).contents = l.contents := by
  rw [Listing.composite, Assessment.composite, Draft.contents_finish]
  cases l with
  | error text => rfl
  | ok ms =>
    rcases ofListing_ok ms with ⟨rfl, h⟩ | ⟨hne, hs, r, hr, h⟩ | ⟨hne, hs, h⟩
    · rfl
    · simp only [h, Listing.contents, if_neg hne, if_pos hs, ← message_of_report hr]
      rfl
    · simp only [h, Listing.contents, if_neg hne, if_neg hs]
      rfl

/-- The pass once the listing has been answered. -/
theorem Pass.listed_eq (fetched : Target) (now : Instant) (l : Listing) :
    Pass.listed fetched now l =
      if fetched.carries (l.composite fetched.status now) then .finished l.answer
      else .writing fetched (l.composite fetched.status now) l.answer := by
  rw [← result_ofListing]
  rfl

end FleetHealth

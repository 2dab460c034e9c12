import FleetHealth.Proofs.Pass.Carried
import Mathlib.Logic.Relation

/-!
When a pass after a pass writes.

The outcome of a listing is all that a target shows of it (`Listing.contents_eq_iff`). A pass leaves a
target that shows its outcome, so the pass after it writes exactly if the outcome is another one. The
outcome of a list of members hangs on the failing conditions alone, and on whether there are members
(`outcome_eq_of_troubles`): much of a fleet can change unfelt.
-/

namespace FleetHealth

open FleetHealth.Time (Instant)

/-! ### Outcomes -/

/-- What a listing comes to. -/
inductive Outcome
  | evaluating
  | empty
  | failing (message : String)
  | healthy
  deriving DecidableEq, Repr

/-- What the answer to a listing comes to. -/
def Listing.outcome : Listing → Outcome
  | .error _ => .evaluating
  | .ok ms =>
    if ms = [] then .empty
    else if SomeFails ms then .failing (reportMessage ms)
    else .healthy

/-- What the three slots say of an outcome. -/
def Outcome.contents : Outcome → Contents
  | .evaluating => ⟨⟨.yes, "", ""⟩, ⟨.no, "", ""⟩, ⟨.no, "", ""⟩⟩
  | .empty => ⟨⟨.yes, "", ""⟩, ⟨.no, "", ""⟩, ⟨.yes, "No POs Found", ""⟩⟩
  | .failing message =>
    ⟨⟨.yes, "", ""⟩, ⟨.yes, "", ""⟩, ⟨.no, "PO In An Error State", message⟩⟩
  | .healthy =>
    ⟨⟨.yes, "", ""⟩, ⟨.no, "", ""⟩,
      ⟨.yes, "POs Are Healthy", "All POs in a successful state"⟩⟩

theorem Outcome.contents_injective : Function.Injective contents := by
  intro o o' same
  cases o <;> cases o' <;> simp_all [contents]

theorem Listing.contents_outcome (l : Listing) : l.outcome.contents = l.contents := by
  cases l with
  | error text => rfl
  | ok ms =>
    simp only [outcome, contents]
    split
    · rfl
    · split <;> rfl

/-- Two listings are told apart by what the slots say exactly if their outcomes differ. -/
theorem Listing.contents_eq_iff {l l' : Listing} :
    l.contents = l'.contents ↔ l.outcome = l'.outcome := by
  rw [← l.contents_outcome, ← l'.contents_outcome]
  exact Outcome.contents_injective.eq_iff

/-! ### What an outcome hangs on -/

theorem troubles_eq_nil_iff (ms : List Member) : troubles ms = [] ↔ ¬ SomeFails ms := by
  rw [troubles_eq, List.map_eq_nil_iff, failures_eq_nil_iff]

/-- The outcome hangs on whether there are members, and on the troubles in their order. -/
theorem outcome_eq_of_troubles {ms ms' : List Member} (empty : ms = [] ↔ ms' = [])
    (same : troubles ms = troubles ms') :
    Listing.outcome (.ok ms) = Listing.outcome (.ok ms') := by
  have fails : SomeFails ms ↔ SomeFails ms' := by
    rw [← Decidable.not_iff_not, ← troubles_eq_nil_iff, ← troubles_eq_nil_iff, same]
  simp only [Listing.outcome, reportMessage, empty, fails, same]

/-- A change of a fleet that no outcome shows: a healthy member comes to others, a condition that
means no failure comes to a member, or a condition is put in other words. -/
inductive Unfelt : List Member → List Member → Prop
  | member {before after : List Member} (m : Member)
      (healthy : ∀ c ∈ m.status.conditions, ¬ c.Fails) (others : before ++ after ≠ []) :
      Unfelt (before ++ after) (before ++ m :: after)
  | condition {before after : List Member} {name : String} {cs ds : List Condition} (c : Condition)
      (harmless : ¬ c.Fails) :
      Unfelt (before ++ ⟨name, ⟨cs ++ ds⟩⟩ :: after) (before ++ ⟨name, ⟨cs ++ c :: ds⟩⟩ :: after)
  | wording {before after : List Member} {name : String} {cs ds : List Condition}
      {c c' : Condition} (reason : c.reason = c'.reason) :
      Unfelt (before ++ ⟨name, ⟨cs ++ c :: ds⟩⟩ :: after)
        (before ++ ⟨name, ⟨cs ++ c' :: ds⟩⟩ :: after)

/-- The fleets differ only by such changes, made or taken back. -/
def Alike : List Member → List Member → Prop := Relation.EqvGen Unfelt

theorem troubles_append (ms ms' : List Member) :
    troubles (ms ++ ms') = troubles ms ++ troubles ms' :=
  List.flatMap_append

theorem troubles_cons (m : Member) (ms : List Member) :
    troubles (m :: ms) =
      (m.status.conditions.filter (·.Fails)).map (fun c => (m.name, c.reason)) ++ troubles ms :=
  List.flatMap_cons

theorem Unfelt.troubles_eq {ms ms' : List Member} (h : Unfelt ms ms') :
    (ms = [] ↔ ms' = []) ∧ troubles ms = troubles ms' := by
  cases h with
  | member m healthy others =>
    refine ⟨by simp [others], ?_⟩
    have quiet : m.status.conditions.filter (·.Fails) = [] := by
      simpa [List.filter_eq_nil_iff] using healthy
    rw [troubles_append, troubles_append, troubles_cons, quiet, List.map_nil, List.nil_append]
  | condition c harmless =>
    refine ⟨by simp, ?_⟩
    simp only [troubles_append, troubles_cons, List.filter_append, List.filter_cons, harmless,
      decide_false, Bool.false_eq_true, if_false]
  | @wording _ _ _ _ _ c c' reason =>
    refine ⟨by simp, ?_⟩
    have fails : c.Fails ↔ c'.Fails := by simp only [Condition.Fails, reason]
    simp only [troubles_append, troubles_cons, List.filter_append, List.filter_cons, fails,
      List.map_append]
    split <;> simp [reason]

theorem Alike.outcome_eq {ms ms' : List Member} (h : Alike ms ms') :
    Listing.outcome (.ok ms) = Listing.outcome (.ok ms') := by
  induction h with
  | rel _ _ change => exact outcome_eq_of_troubles change.troubles_eq.1 change.troubles_eq.2
  | refl => rfl
  | symm _ _ _ ih => exact ih.symm
  | trans _ _ _ _ _ first second => exact first.trans second

/-! ### Passes one after the other -/

/-- What a pass without interruption makes of a store; the listing and the clock are those of the
site. -/
def Store.visited (store : Store) (name : String) (around : Site) : Store :=
  ({ around with store }.pass name).2.store

/-- The store is available and its target says what the listing calls for. -/
def Store.Shows (store : Store) (name : String) (l : Listing) : Prop :=
  store.unavailable = false ∧ ∃ t ∈ store.find? name, t.Tells l

section

variable {store : Store} {name : String} {t : Target} {l : Listing} {around : Site}

/-- A pass finds nothing to write exactly if the target says what the listing calls for. -/
theorem Store.visited_eq (up : store.unavailable = false) (found : store.find? name = some t)
    (around : Site) :
    store.visited name around =
      if t.Tells around.list then store
      else store.afterWrite t (around.list.composite t.status around.clock) := by
  have pass := Site.pass_eq (s := { around with store }) up found
  have list : Site.list { around with store } = around.list := rfl
  simp only [visited, pass, list, update_of_find? up found, ← Target.carries_iff,
    Target.carries_composite_iff]

theorem Store.shows_visited (up : store.unavailable = false) (found : store.find? name = some t)
    (around : Site) : (store.visited name around).Shows name around.list := by
  rw [visited_eq up found]
  split
  · next told => exact ⟨up, t, found, told⟩
  · exact ⟨up, _, find?_afterWrite_self found,
      written_tells (around.list.contents_composite t.status around.clock)⟩

/-- A pass over a target that shows an outcome writes exactly if its own outcome differs. -/
theorem Store.Shows.visited (h : store.Shows name l) (around : Site) :
    (around.list.outcome = l.outcome → store.visited name around = store) ∧
      (around.list.outcome ≠ l.outcome →
        (store.visited name around).patchCount = store.patchCount + 1) := by
  obtain ⟨up, t, found, c, carried, said⟩ := h
  have told : t.Tells around.list ↔ around.list.outcome = l.outcome := by
    rw [← Listing.contents_eq_iff, ← said]
    refine ⟨?_, fun same => ⟨c, carried, same.symm⟩⟩
    rintro ⟨c', carried', said'⟩
    cases carried.symm.trans carried'
    exact said'.symm
  rw [visited_eq up found]
  refine ⟨fun same => if_pos (told.2 same), fun differs => ?_⟩
  rw [if_neg (mt told.1 differs)]
  rfl

/-- Once a target shows an outcome, passes with that outcome leave it alone. -/
theorem Store.Shows.settled {later : List Site} (h : store.Shows name l)
    (same : ∀ s ∈ later, s.list = l) : later.foldl (·.visited name ·) store = store := by
  induction later with
  | nil => rfl
  | cons around later ih =>
    obtain ⟨here, others⟩ := List.forall_mem_cons.1 same
    rw [List.foldl_cons, (h.visited around).1 (by rw [here]), ih others]

end

/-- A pass after a pass, over an available store that holds its target with whatever status, and
whatever the clock shows: it writes exactly if the outcomes of the two listings differ, and the passes
after it that list the same never write. The outcome of a list of members hangs on its troubles
alone and on whether there are members, so a fleet that has changed unfelt leaves the store as it
is. -/
theorem passes_write_changes {store : Store} {name : String} {t : Target} {a b : Site}
    {later : List Site} (up : store.unavailable = false) (found : store.find? name = some t)
    (same : ∀ s ∈ later, s.list = b.list) :
    let first := store.visited name a
    let second := first.visited name b
    second.patchCount =
        first.patchCount + (if a.list.outcome = b.list.outcome then 0 else 1) ∧
      (a.list.outcome = b.list.outcome → second = first) ∧
      later.foldl (·.visited name ·) second = second ∧
      (∀ ms ms', (ms = [] ↔ ms' = []) → troubles ms = troubles ms' →
        Listing.outcome (.ok ms) = Listing.outcome (.ok ms')) ∧
      ∀ ms ms', a.list = .ok ms → b.list = .ok ms' → Alike ms ms' → second = first := by
  intro first second
  have shown : first.Shows name a.list := Store.shows_visited up found a
  obtain ⟨kept, wrote⟩ := shown.visited b
  have settled : second.Shows name b.list := by
    obtain ⟨up', t', found', -⟩ := shown
    exact Store.shows_visited up' found' b
  refine ⟨?_, fun equal => kept equal.symm, settled.settled same,
    fun ms ms' => outcome_eq_of_troubles, ?_⟩
  · split
    · next equal => exact congrArg Store.patchCount (kept equal.symm)
    · next differ => exact wrote (Ne.symm differ)
  · intro ms ms' listed listed' alike
    refine kept ?_
    rw [listed, listed', alike.outcome_eq]

/-- A site whose only member fails. -/
def troubledSite : Site := .new (.single "agg") ⟨[⟨"a", ⟨[.installed .no .applyFailed]⟩⟩]⟩

/-- The same at another time, with a healthy member before the other one, whose condition is put in
other words and has got a harmless one beside it. -/
def reworded (now : Instant) : Site where
  store := .empty
  roster := ⟨[⟨"b", ⟨[.installed .yes .applySuccessful]⟩⟩,
    ⟨"a", ⟨[.installed .unknown .applyPending, ⟨"Ready", .no, .applyFailed, "out of memory"⟩]⟩⟩]⟩
  outage := none
  clock := now

theorem alike_reworded :
    Alike troubledSite.roster.members (reworded .epoch).roster.members := by
  have other : Unfelt [⟨"a", ⟨[.installed .no .applyFailed]⟩⟩]
      [⟨"a", ⟨[⟨"Ready", .no, .applyFailed, "out of memory"⟩]⟩⟩] :=
    @Unfelt.wording [] [] _ [] [] _ _ rfl
  have beside : Unfelt [⟨"a", ⟨[⟨"Ready", .no, .applyFailed, "out of memory"⟩]⟩⟩]
      [⟨"a", ⟨[.installed .unknown .applyPending,
        ⟨"Ready", .no, .applyFailed, "out of memory"⟩]⟩⟩] :=
    @Unfelt.condition [] [] _ [] _ (.installed .unknown .applyPending) (by decide)
  have member := @Unfelt.member [] _ ⟨"b", ⟨[.installed .yes .applySuccessful]⟩⟩
    (by decide) (List.cons_ne_nil ⟨"a", ⟨[.installed .unknown .applyPending,
      ⟨"Ready", .no, .applyFailed, "out of memory"⟩]⟩⟩ [])
  exact .trans _ _ _ (.rel _ _ other) (.trans _ _ _ (.rel _ _ beside) (.rel _ _ member))

/-- A pass over the fleet as it was and one over the fleet put otherwise write once between them; and
a pass that cannot list the members writes again. -/
theorem passes_write_changes_reworded :
    let first := (Store.single "agg").visited "agg" troubledSite
    let lost : Site := { troubledSite with outage := some "offline" }
    let later : Instant := ⟨20000, 61, 5, by decide⟩
    (Store.single "agg").find? "agg" = some (.new "agg") ∧
      first.patchCount = 1 ∧ first.visited "agg" (reworded later) = first ∧
      [reworded .epoch, reworded later].foldl (·.visited "agg" ·)
        (first.visited "agg" (reworded later)) = first ∧
      (first.visited "agg" lost).patchCount = 2 := by
  intro first lost later
  have found : (Store.single "agg").find? "agg" = some (.new "agg") := by decide
  have again := @passes_write_changes _ _ _ troubledSite (reworded later)
    [reworded .epoch, reworded later] rfl found (by simp [reworded, Site.list])
  have fails := @passes_write_changes _ _ _ troubledSite lost [] rfl found (by simp)
  have once : first.patchCount = 1 := by decide +kernel
  have kept : first.visited "agg" (reworded later) = first :=
    again.2.2.2.2 _ _ rfl rfl alike_reworded
  refine ⟨found, once, kept, again.2.2.1.trans kept, ?_⟩
  rw [fails.1, once]
  rfl

end FleetHealth

import FleetHealth.FleetFile
import FleetHealth.Proofs.Pass.Conduct
import FleetHealth.Proofs.Roster.Order

/-!
Names that tell members apart.

An upsert puts its member before the others of that name, and a removal takes the first of them, so
the others of a name outlive both (`called_upsert`, `called_remove`) and go on failing in the passes
that list them (`blames_iff`). A name tells its member apart exactly while no two members have it
(`identifies_iff`), and once that is so no operation ends it (`named_after_le`). Nothing makes it so
at the beginning: a roster may be built with namesakes.
-/

namespace FleetHealth

namespace Roster

/-- The members with the name, in order. -/
def called (r : Roster) (name : String) : List Member :=
  r.members.filter (·.name = name)

/-- Some pass that lists this roster reports the name as failing, whatever it finds before the listing
and after it. -/
def Blames (r : Roster) (name : String) : Prop :=
  ∃ (target : String) (a b c d : Site) (later : List Site) (names : List String) (message : String),
    c.roster = r ∧ name ∈ names ∧
      ((Pass.fetching target).through (a :: b :: c :: d :: later)).1 =
        .finished (.ok (some (.failing names message)))

/-- The name tells its member apart: an upsert leaves the member that it puts in as the only one of
the name, and a removal leaves none, so what was there before is not reported any more. -/
structure Identifies (r : Roster) (name : String) : Prop where
  replaces : ∀ m, m.name = name → (r.upsert m).called name = [m]
  heals : ∀ m, m.name = name → (∀ c ∈ m.status.conditions, ¬ c.Fails) →
    ¬ (r.upsert m).Blames name
  removes : ∀ m left, r.remove name = .ok (m, left) → left.called name = [] ∧ ¬ left.Blames name

section

variable {r r' : Roster} {m : Member} {ms : List Member} {name : String} {ops : List Operation}

/-! ### The members of a name -/

theorem length_called (r : Roster) (name : String) : (r.called name).length = r.named name :=
  List.countP_eq_length_filter.symm

theorem called_eq_nil (lacks : Lacks name ms) : called ⟨ms⟩ name = [] := by
  refine List.filter_eq_nil_iff.2 fun x mem => ?_
  simpa using lacks x mem

/-- An upsert replaces the first member of the name, and the others stay behind it. -/
theorem called_upsert (r : Roster) (m : Member) :
    (r.upsert m).called m.name = m :: (r.called m.name).tail := by
  rcases r.upsert_cut m with ⟨new, left⟩ | ⟨before, x, after, members, first, same, left⟩
  · have nobody : r.called m.name = [] := called_eq_nil new
    rw [nobody, called, left, List.filter_append, ← called, nobody]
    simp
  · have nobody : before.filter (·.name = m.name) = [] := called_eq_nil first
    rw [called, called, left, members, List.filter_append, List.filter_append, nobody]
    simp [same]

/-- A removal takes the first member of the name, and the others stay. -/
theorem called_remove (taken : r.remove name = .ok (m, r')) :
    r.called name = m :: r'.called name := by
  obtain ⟨before, after, members, first, same, rfl⟩ := remove_eq_ok_iff.1 taken
  have nobody : before.filter (·.name = name) = [] := called_eq_nil first
  rw [called, called, members, List.filter_append, List.filter_append, nobody]
  simp [same]

/-! ### What passes report -/

/-- On whatever sites a pass takes its steps, its answer is settled by what it fetches and lists. -/
theorem through_answer (target : String) (a b c d : Site) (later : List Site) :
    ((Pass.fetching target).through (a :: b :: c :: d :: later)).1 =
      .finished (Pass.settled (a.store.get target) c.list) := by
  rw [Pass.through_fetching]
  cases a.store.get target with
  | error cause => exact congrArg Prod.fst (Pass.through_finished _ _)
  | ok found =>
    cases found with
    | none => exact congrArg Prod.fst (Pass.through_finished _ _)
    | some t =>
      obtain ⟨answer, left, -, listed⟩ := Pass.through_listed t b.clock c.list d later
      exact congrArg Prod.fst listed

theorem mem_troubles : name ∈ (troubles ms).map Prod.fst ↔ SomeFails (called ⟨ms⟩ name) := by
  simp only [troubles, SomeFails, called, List.mem_map, List.mem_flatMap, List.mem_filter,
    decide_eq_true_eq]
  constructor
  · rintro ⟨_, ⟨m, mem, c, ⟨condition, fails⟩, rfl⟩, rfl⟩
    exact ⟨m, ⟨mem, rfl⟩, c, condition, fails⟩
  · rintro ⟨m, ⟨mem, rfl⟩, c, condition, fails⟩
    exact ⟨_, ⟨m, mem, c, ⟨condition, fails⟩, rfl⟩, rfl⟩

/-- A pass that reports failures has listed the members, and its names are those of their troubles. -/
theorem names_of_settled {found : Except Store.Error (Option Target)} {l : Listing}
    {names : List String} {message : String}
    (settled : Pass.settled found l = .ok (some (.failing names message))) :
    ∃ ms, l = .ok ms ∧ names = (troubles ms).map Prod.fst := by
  have answered : l.answer = .ok (some (.failing names message)) := by
    cases found with
    | error cause => cases settled
    | ok found =>
      cases found with
      | none => cases settled
      | some t => exact settled
  cases l with
  | error text => cases answered
  | ok ms =>
    rw [Listing.answer] at answered
    split at answered
    · cases answered
    · split at answered
      · cases answered
        exact ⟨ms, rfl, rfl⟩
      · cases answered

/-- A name is reported by some pass if and only if a member of the name is failing. -/
theorem blames_iff (r : Roster) (name : String) : r.Blames name ↔ SomeFails (r.called name) := by
  constructor
  · rintro ⟨target, a, b, c, d, later, names, message, rfl, reported, answered⟩
    rw [through_answer, Pass.finished.injEq] at answered
    obtain ⟨ms, listed, rfl⟩ := names_of_settled answered
    rw [Site.list] at listed
    split at listed
    · cases listed
    · cases listed
      exact mem_troubles.1 reported
  · intro fails
    have all : SomeFails r.members := by
      obtain ⟨m, mem, failing⟩ := fails
      exact ⟨m, (List.mem_filter.1 mem).1, failing⟩
    let s : Site := .new (.single "agg") r
    have answered : Pass.settled (s.store.get "agg") s.list =
        .ok (some (.failing ((troubles r.members).map Prod.fst) (reportMessage r.members))) := by
      show Listing.answer (.ok r.members) = _
      rw [Listing.answer, if_neg all.ne_nil, if_pos all]
    refine ⟨"agg", s, s, s, s, [], _, reportMessage r.members, rfl, mem_troubles.2 fails, ?_⟩
    rw [through_answer, answered]

/-! ### Names that tell members apart -/

/-- A name that no two members have is never given to a second one. -/
theorem named_after_le (once : r.named name ≤ 1) (ops : List Operation) :
    (r.after ops).named name ≤ 1 := by
  induction ops generalizing r with
  | nil => exact once
  | cons op ops ih =>
    refine ih ?_
    rw [named_perform]
    cases op with
    | upsert m =>
      rw [tally]
      split
      · exact Nat.max_le.2 ⟨once, Nat.le_refl 1⟩
      · exact once
    | remove n =>
      rw [tally]
      split
      · exact Nat.le_trans (Nat.sub_le _ _) once
      · exact once

/-- What is behind the first member of a name is nothing exactly if no two members have the name. -/
theorem tail_called_eq_nil (r : Roster) (name : String) :
    (r.called name).tail = [] ↔ r.named name ≤ 1 := by
  rw [← List.length_eq_zero_iff, List.length_tail, length_called]
  omega

/-- A name tells its member apart if and only if no two members have it. -/
theorem identifies_iff (r : Roster) (name : String) : r.Identifies name ↔ r.named name ≤ 1 := by
  constructor
  · intro identifies
    have only := identifies.replaces ⟨name, ⟨[]⟩⟩ rfl
    rw [called_upsert] at only
    exact (r.tail_called_eq_nil name).1 (List.cons.inj only).2
  · intro once
    have others := (r.tail_called_eq_nil name).2 once
    have replaces (m : Member) (same : m.name = name) : (r.upsert m).called name = [m] := by
      subst same
      rw [called_upsert, others]
    refine ⟨replaces, fun m same healthy blamed => ?_, fun m left taken => ?_⟩
    · rw [blames_iff, replaces m same] at blamed
      obtain ⟨x, mem, c, condition, fails⟩ := blamed
      obtain rfl := List.mem_singleton.1 mem
      exact healthy c condition fails
    · have gone : left.called name = [] := by
        rwa [called_remove taken, List.tail_cons] at others
      refine ⟨gone, fun blamed => ?_⟩
      rw [blames_iff, gone] at blamed
      obtain ⟨x, mem, -⟩ := blamed
      cases mem

end

end Roster

/-- After any operations on any roster, whether built of members or from a file. An upsert and a
removal act on the first member of their name and leave the others of it, which are the ones that
passes go on reporting. So a name tells its member apart exactly if what the operations have made of
the number of its members is one at most, and it does so from then on; where it was one at most at the
beginning, it always does. -/
theorem names_identify_members (r : Roster) (ops : List Roster.Operation) :
    let r' := r.after ops
    (∀ m, (r'.upsert m).called m.name = m :: (r'.called m.name).tail ∧
      ((r'.upsert m).Blames m.name ↔ SomeFails (m :: (r'.called m.name).tail))) ∧
      (∀ name m left, r'.remove name = .ok (m, left) → left.called name = (r'.called name).tail ∧
        (left.Blames name ↔ SomeFails (r'.called name).tail)) ∧
      (∀ name, r'.Identifies name ↔ ops.foldl (Roster.tally name) (r.named name) ≤ 1) ∧
      (∀ name, r'.Identifies name → ∀ later, (r'.after later).Identifies name) ∧
      (∀ name, r.named name ≤ 1 → r'.Identifies name) := by
  intro r'
  refine ⟨fun m => ?_, fun name m left taken => ?_, fun name => ?_, fun name identifies later => ?_,
    fun name once => ?_⟩
  · rw [Roster.blames_iff, Roster.called_upsert]
    exact ⟨rfl, Iff.rfl⟩
  · rw [Roster.blames_iff, Roster.called_remove taken, List.tail_cons]
    exact ⟨rfl, Iff.rfl⟩
  · rw [Roster.identifies_iff, Roster.named_after]
  · exact (Roster.identifies_iff _ name).2
      (Roster.named_after_le ((Roster.identifies_iff r' name).1 identifies) later)
  · exact (Roster.identifies_iff r' name).2 (Roster.named_after_le once ops)

/-- A file in which two members have one name. -/
def twinsFile : String :=
  "\x7b\"members\":[\x7b\"name\":\"a\"\x7d,\x7b\"name\":\"a\",\"status\":\x7b\"conditions\":" ++
    "[\x7b\"reason\":\"ApplyFailed\"\x7d]\x7d\x7d]\x7d"

/-- One of the two fails. -/
def twins : Roster := ⟨[⟨"a", ⟨[]⟩⟩, ⟨"a", ⟨[⟨"", .unknown, .applyFailed, ""⟩]⟩⟩]⟩

/-- The file is accepted. After an upsert of a healthy member there are two of the name still, and
after a removal there is one; either way the name is still reported as failing. -/
theorem namesake_outlives :
    let well : Member := ⟨"a", ⟨[]⟩⟩
    let sick : Member := ⟨"a", ⟨[⟨"", .unknown, .applyFailed, ""⟩]⟩⟩
    Roster.ofFile (.ok twinsFile.toUTF8) = .ok twins ∧
      (twins.upsert well).called "a" = [well, sick] ∧
      (twins.upsert well).Blames "a" ∧
      twins.remove "a" = .ok (well, ⟨[sick]⟩) ∧
      (⟨[sick]⟩ : Roster).called "a" = [sick] ∧
      (⟨[sick]⟩ : Roster).Blames "a" ∧
      ¬ twins.Identifies "a" := by
  intro well sick
  refine ⟨by decide +kernel, by decide, ?_, by decide, by decide, ?_, ?_⟩
  · rw [Roster.blames_iff]
    decide
  · rw [Roster.blames_iff]
    decide
  · rw [Roster.identifies_iff]
    decide

/-- Once one of the two has been removed, the name tells the other apart, whatever happens later. -/
theorem names_identify_members_onceParted :
    let well : Member := ⟨"a", ⟨[]⟩⟩
    let ops : List Roster.Operation := [.upsert well, .remove "a", .upsert ⟨"b", ⟨[]⟩⟩]
    twins.named "a" = 2 ∧ twins.named "b" ≤ 1 ∧
      (twins.after ops).Identifies "a" ∧ (twins.after ops).Identifies "b" ∧
      ((twins.after ops).after [.remove "b", .upsert well]).Identifies "a" ∧
      ¬ ((twins.after ops).upsert well).Blames "a" ∧
      (∃ m left, (twins.after ops).remove "a" = .ok (m, left) ∧ left.called "a" = []) := by
  intro well ops
  obtain ⟨-, removed, identified, lasts, always⟩ := names_identify_members twins ops
  have parted : (twins.after ops).Identifies "a" := (identified "a").2 (by decide)
  have new : twins.named "b" ≤ 1 := by decide
  obtain ⟨m, left, taken⟩ : ∃ m left, (twins.after ops).remove "a" = .ok (m, left) :=
    ⟨_, _, rfl⟩
  exact ⟨by decide, new, parted, always "b" new, lasts "a" parted _,
    parted.heals well rfl nofun, m, left, taken, (removed "a" m left taken).1⟩

end FleetHealth

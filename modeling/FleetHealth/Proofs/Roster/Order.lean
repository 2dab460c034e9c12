import FleetHealth.Roster
import Mathlib.Data.List.Nodup

/-!
The order of a roster, and how often it has a name.

`upsert_cut` and `remove_eq_ok_iff` say once what the two operations do to a list: they cut it at the
first member of a name. From these cuts follow the places (`FirstAt`), the counts (`named`) and what
is left alone; `after` takes all of it through any number of operations. Nothing is asked of the list
at first, so all of this holds of names that occur more than once as well.
-/

namespace FleetHealth

namespace Roster

/-! ### Operations and runs -/

/-- An operation on a roster. -/
inductive Operation
  | upsert (m : Member)
  | remove (name : String)
  deriving DecidableEq, Repr

/-- The name that an operation is about. -/
def Operation.name : Operation → String
  | upsert m => m.name
  | remove name => name

/-- The answer to an operation, with the member that is taken out, and the roster after it. -/
def perform (r : Roster) : Operation → Except Error (Option Member) × Roster
  | .upsert m => (.ok none, r.upsert m)
  | .remove name =>
    match r.remove name with
    | .ok (m, r') => (.ok (some m), r')
    | .error e => (.error e, r)

/-- The roster after some operations. -/
def after (r : Roster) (ops : List Operation) : Roster :=
  ops.foldl (fun r op => (r.perform op).2) r

/-- No member has the name. -/
def Lacks (name : String) (ms : List Member) : Prop :=
  ∀ x ∈ ms, x.name ≠ name

instance (name : String) (ms : List Member) : Decidable (Lacks name ms) :=
  inferInstanceAs (Decidable (∀ x ∈ ms, x.name ≠ name))

/-- The first member with the name stands at this place. -/
def FirstAt (name : String) (ms : List Member) (i : Nat) : Prop :=
  (∃ x ∈ ms[i]?, x.name = name) ∧ ∀ j < i, ∀ x ∈ ms[j]?, x.name ≠ name

/-- How many members have the name. -/
def named (r : Roster) (name : String) : Nat :=
  r.members.countP (·.name = name)

/-- No two members have one name. -/
def Distinct (r : Roster) : Prop :=
  (r.members.map Member.name).Nodup

instance (r : Roster) : Decidable r.Distinct :=
  inferInstanceAs (Decidable (r.members.map Member.name).Nodup)

section

variable {r r' : Roster} {m x : Member} {ms before rest : List Member} {name : String} {i : Nat}
  {op : Operation} {ops : List Operation}

/-! ### Where a list is cut -/

theorem lacks_cons (other : x.name ≠ name) (lacks : Lacks name ms) : Lacks name (x :: ms) :=
  List.forall_mem_cons.2 ⟨other, lacks⟩

/-- An upsert adds the member if its name is new, and otherwise puts it in the place of the first of
that name. -/
theorem insertNamed_cut (m : Member) (ms : List Member) :
    (Lacks m.name ms ∧ insertNamed m ms = ms ++ [m]) ∨
    ∃ before x after, ms = before ++ x :: after ∧ Lacks m.name before ∧ x.name = m.name ∧
      insertNamed m ms = before ++ m :: after := by
  induction ms with
  | nil => exact .inl ⟨nofun, rfl⟩
  | cons y ms ih =>
    rw [insertNamed]
    split
    · next same => exact .inr ⟨[], y, ms, rfl, nofun, same, rfl⟩
    · next other =>
      rcases ih with ⟨new, left⟩ | ⟨before, x, after, rfl, first, same, left⟩
      · exact .inl ⟨lacks_cons other new, congrArg (y :: ·) left⟩
      · exact .inr ⟨y :: before, x, after, rfl, lacks_cons other first, same,
          congrArg (y :: ·) left⟩

theorem eraseNamed?_eq_none_iff : eraseNamed? name ms = none ↔ Lacks name ms := by
  induction ms with
  | nil => simp [eraseNamed?, Lacks]
  | cons x ms ih =>
    rw [eraseNamed?, Lacks, List.forall_mem_cons]
    split
    · next same => simp [same]
    · next other => simp [other, ih, Lacks]

theorem eraseNamed?_eq_some_iff : eraseNamed? name ms = some (m, rest) ↔
    ∃ before after, ms = before ++ m :: after ∧ Lacks name before ∧ m.name = name ∧
      rest = before ++ after := by
  induction ms generalizing rest with
  | nil => simp [eraseNamed?]
  | cons x ms ih =>
    rw [eraseNamed?]
    constructor
    · intro taken
      split at taken
      · next same =>
        cases taken
        exact ⟨[], ms, rfl, nofun, same, rfl⟩
      · next other =>
        obtain ⟨⟨_, left⟩, later, cut⟩ := Option.map_eq_some_iff.1 taken
        cases cut
        obtain ⟨before, after, rfl, first, named, rfl⟩ := ih.1 later
        exact ⟨x :: before, after, rfl, lacks_cons other first, named, rfl⟩
    · rintro ⟨before, after, cut, first, same, rfl⟩
      cases before with
      | nil =>
        cases cut
        simp [same]
      | cons y before =>
        obtain ⟨rfl, rfl⟩ := List.cons.inj cut
        obtain ⟨other, first⟩ := List.forall_mem_cons.1 first
        rw [if_neg other, ih.2 ⟨before, after, rfl, first, same, rfl⟩]
        rfl

/-- A member of the name after a list without one is the first. -/
theorem firstAt_append_iff {after : List Member} (first : Lacks name before) (same : x.name = name) :
    FirstAt name (before ++ x :: after) i ↔ i = before.length := by
  constructor
  · rintro ⟨⟨y, there, named⟩, earlier⟩
    rcases Nat.lt_trichotomy i before.length with less | equal | greater
    · rw [List.getElem?_append_left less] at there
      exact absurd named (first y (List.mem_of_getElem? there))
    · exact equal
    · exact absurd same (earlier before.length greater x (by simp))
  · rintro rfl
    refine ⟨⟨x, by simp, same⟩, fun j less y there => ?_⟩
    rw [List.getElem?_append_left less] at there
    exact first y (List.mem_of_getElem? there)

theorem Lacks.not_firstAt (lacks : Lacks name ms) : ¬ FirstAt name ms i := by
  rintro ⟨⟨x, there, named⟩, -⟩
  exact lacks x (List.mem_of_getElem? there) named

/-! ### What the operations do -/

theorem upsert_cut (r : Roster) (m : Member) :
    (Lacks m.name r.members ∧ (r.upsert m).members = r.members ++ [m]) ∨
    ∃ before x after, r.members = before ++ x :: after ∧ Lacks m.name before ∧ x.name = m.name ∧
      (r.upsert m).members = before ++ m :: after :=
  insertNamed_cut m r.members

theorem remove_eq_ok_iff : r.remove name = .ok (m, r') ↔
    ∃ before after, r.members = before ++ m :: after ∧ Lacks name before ∧ m.name = name ∧
      r' = ⟨before ++ after⟩ := by
  obtain ⟨ms⟩ := r'
  simp only [mk.injEq, ← eraseNamed?_eq_some_iff]
  rw [remove]
  split
  · next found => simp [found]
  · next found => simp [found]

theorem remove_eq_error_iff {e : Error} :
    r.remove name = .error e ↔ e = .memberNotFound name ∧ Lacks name r.members := by
  rw [← eraseNamed?_eq_none_iff, remove]
  split
  · next found => simp [found]
  · next found => simp [found, eq_comm]

/-! ### Places -/

/-- What the operations do to a roster: the place of the first member of a name is where a member is
put in and taken out, and no other place changes but by moving up. -/
structure Orderly (r : Roster) : Prop where
  replaces : ∀ m i, FirstAt m.name r.members i → (r.upsert m).members = r.members.set i m
  adds : ∀ m, Lacks m.name r.members → (r.upsert m).members = r.members ++ [m]
  takes : ∀ name i, FirstAt name r.members i →
    ∃ m ∈ r.members[i]?, m.name = name ∧ r.remove name = .ok (m, ⟨r.members.eraseIdx i⟩)
  refuses : ∀ name e, r.remove name = .error e ↔
    e = .memberNotFound name ∧ Lacks name r.members
  unchanged : ∀ op e, (r.perform op).1 = .error e → (r.perform op).2 = r

theorem orderly (r : Roster) : r.Orderly where
  replaces m i first := by
    rcases r.upsert_cut m with ⟨new, -⟩ | ⟨before, x, after, members, lacks, same, left⟩
    · exact absurd first new.not_firstAt
    · rw [members] at first ⊢
      obtain rfl := (firstAt_append_iff lacks same).1 first
      rw [left]
      simp
  adds m new := by
    rcases r.upsert_cut m with ⟨-, left⟩ | ⟨before, x, after, members, -, same, -⟩
    · exact left
    · exact absurd same (new x (by simp [members]))
  takes name i first := by
    obtain ⟨ms⟩ := r
    cases taken : remove ⟨ms⟩ name with
    | error e => exact absurd first (remove_eq_error_iff.1 taken).2.not_firstAt
    | ok answer =>
      obtain ⟨m, r'⟩ := answer
      obtain ⟨before, after, rfl, lacks, same, rfl⟩ := remove_eq_ok_iff.1 taken
      obtain rfl := (firstAt_append_iff lacks same).1 first
      refine ⟨m, by simp, same, ?_⟩
      simp [List.eraseIdx_append_of_length_le]
  refuses name e := remove_eq_error_iff
  unchanged op e refused := by
    cases op with
    | upsert m => cases refused
    | remove name =>
      simp only [perform] at refused ⊢
      split
      · next taken =>
        rw [taken] at refused
        cases refused
      · rfl

/-! ### Counts -/

theorem Lacks.countP (lacks : Lacks name ms) : ms.countP (·.name = name) = 0 :=
  List.countP_eq_zero.2 fun x mem => by simpa using lacks x mem

/-- After an upsert the name is there, and the count of no other name has changed. -/
theorem named_upsert (r : Roster) (m : Member) (name : String) :
    (r.upsert m).named name = if m.name = name then max (r.named name) 1 else r.named name := by
  rcases r.upsert_cut m with ⟨new, left⟩ | ⟨before, x, after, members, -, same, left⟩
  · rw [named, named, left]
    split
    · next here =>
      subst here
      simp [new.countP]
    · next other => simp [other]
  · rw [named, named, left, members]
    split
    · next here => simp [same, here]; omega
    · next other => simp [same, other]

/-- A removal that succeeds takes one member of the name out. -/
theorem named_remove (taken : r.remove name = .ok (m, r')) (other : String) :
    r'.named other + (if name = other then 1 else 0) = r.named other := by
  obtain ⟨before, after, members, -, rfl, rfl⟩ := remove_eq_ok_iff.1 taken
  simp only [named, members, List.countP_append, List.countP_cons, decide_eq_true_eq]
  omega

/-- How an operation changes the number of members with a name. -/
def tally (name : String) (count : Nat) : Operation → Nat
  | .upsert m => if m.name = name then max count 1 else count
  | .remove n => if n = name then count - 1 else count

theorem named_perform (r : Roster) (op : Operation) (name : String) :
    (r.perform op).2.named name = tally name (r.named name) op := by
  cases op with
  | upsert m => exact named_upsert r m name
  | remove n =>
    simp only [perform, tally]
    split
    · next taken =>
      have fewer := named_remove taken name
      split at fewer <;> simp [*] <;> omega
    · next refused =>
      split
      · next same =>
        subst same
        rw [named, (remove_eq_error_iff.1 refused).2.countP]
      · rfl

theorem named_after (r : Roster) (ops : List Operation) (name : String) :
    (r.after ops).named name = ops.foldl (tally name) (r.named name) := by
  induction ops generalizing r with
  | nil => rfl
  | cons op ops ih =>
    rw [List.foldl_cons, ← named_perform]
    exact ih (r.perform op).2

/-! ### What is left alone -/

/-- An operation leaves alone, in their order, all members of other names. -/
theorem filter_perform {p : Member → Bool} (spares : ∀ x, x.name = op.name → p x = false) :
    (r.perform op).2.members.filter p = r.members.filter p := by
  cases op with
  | upsert m =>
    rcases r.upsert_cut m with ⟨-, left⟩ | ⟨before, x, after, members, -, same, left⟩
    · show (r.upsert m).members.filter p = _
      simp [left, spares m rfl]
    · show (r.upsert m).members.filter p = _
      simp [left, members, spares m rfl, spares x same]
  | remove name =>
    simp only [perform]
    split
    · next m _ taken =>
      obtain ⟨before, after, members, -, same, rfl⟩ := remove_eq_ok_iff.1 taken
      simp [members, spares m same]
    · rfl

theorem filter_after {p : Member → Bool}
    (spares : ∀ op ∈ ops, ∀ x : Member, x.name = op.name → p x = false) :
    (r.after ops).members.filter p = r.members.filter p := by
  induction ops generalizing r with
  | nil => rfl
  | cons op ops ih =>
    obtain ⟨here, later⟩ := List.forall_mem_cons.1 spares
    exact (ih later).trans (filter_perform here)

/-! ### Distinct names -/

theorem Distinct.upsert (distinct : r.Distinct) (m : Member) : (r.upsert m).Distinct := by
  rcases r.upsert_cut m with ⟨new, left⟩ | ⟨before, x, after, members, -, same, left⟩
  · have fresh : m.name ∉ r.members.map Member.name := by
      intro mem
      obtain ⟨x, there, same⟩ := List.mem_map.1 mem
      exact new x there same
    rw [Distinct, left, List.map_append, List.map_singleton, ← List.concat_eq_append]
    exact List.Nodup.concat fresh distinct
  · rw [Distinct, members] at distinct
    rw [Distinct, left]
    simpa [same] using distinct

theorem Distinct.perform (distinct : r.Distinct) (op : Operation) : (r.perform op).2.Distinct := by
  cases op with
  | upsert m => exact distinct.upsert m
  | remove name =>
    simp only [Roster.perform]
    split
    · next m _ taken =>
      obtain ⟨before, after, members, -, -, rfl⟩ := remove_eq_ok_iff.1 taken
      rw [Distinct, members] at distinct
      have fewer : (before ++ after).Sublist (before ++ m :: after) :=
        (List.Sublist.refl before).append (List.sublist_cons_self m after)
      exact distinct.sublist (fewer.map Member.name)
    · exact distinct

theorem Distinct.after (distinct : r.Distinct) (ops : List Operation) : (r.after ops).Distinct := by
  induction ops generalizing r with
  | nil => exact distinct
  | cons op ops ih => exact ih (distinct.perform op)

end

end Roster

/-- Any roster, whatever names occur in it and how often, after any operations. The next one keeps to
the places; an upsert leaves a member of its name and a removal takes one away, so the number of
members with a name is what the operations have made of the number at first. The members whose names
no operation was about are those of the beginning, in their order, and names that were distinct are
still distinct. -/
theorem rosters_keep_order (r : Roster) (ops : List Roster.Operation) :
    let r' := r.after ops
    r'.Orderly ∧
      (∀ m name, (r'.upsert m).named name =
        if m.name = name then max (r'.named name) 1 else r'.named name) ∧
      (∀ name m left, r'.remove name = .ok (m, left) →
        ∀ other, left.named other + (if name = other then 1 else 0) = r'.named other) ∧
      (∀ name, r'.named name = ops.foldl (Roster.tally name) (r.named name)) ∧
      (r'.members.filter fun m => m.name ∉ ops.map Roster.Operation.name) =
        (r.members.filter fun m => m.name ∉ ops.map Roster.Operation.name) ∧
      (r.Distinct → r'.Distinct) := by
  intro r'
  refine ⟨r'.orderly, r'.named_upsert, fun name m left => Roster.named_remove,
    r.named_after ops, Roster.filter_after ?_, fun distinct => distinct.after ops⟩
  intro op mem x same
  have touched : x.name ∈ ops.map Roster.Operation.name := same ▸ List.mem_map_of_mem mem
  simpa using touched

/-- A name that occurs twice loses its first member, a missing name is asked for, and a member that is
new goes to the end. -/
theorem rosters_keep_order_twice :
    let sick : Member := ⟨"a", ⟨[.installed .no .applyFailed]⟩⟩
    let r : Roster := ⟨[⟨"b", ⟨[]⟩⟩, sick, ⟨"c", ⟨[]⟩⟩, ⟨"a", ⟨[]⟩⟩, ⟨"d", ⟨[]⟩⟩]⟩
    let ops : List Roster.Operation := [.upsert ⟨"b", ⟨[.installed .yes .unknown]⟩⟩, .remove "a",
      .remove "nobody", .upsert ⟨"e", ⟨[]⟩⟩]
    let r' := r.after ops
    r.named "a" = 2 ∧ r'.named "a" = 1 ∧ Roster.FirstAt "a" r'.members 2 ∧
      (∃ m, r'.remove "a" = .ok (m, ⟨r'.members.eraseIdx 2⟩)) ∧
      r'.remove "nobody" = .error (.memberNotFound "nobody") ∧
      (r'.members.filter fun m => m.name ∉ ["b", "a", "nobody", "e"]) =
        [⟨"c", ⟨[]⟩⟩, ⟨"d", ⟨[]⟩⟩] ∧
      ¬ r.Distinct ∧
      (⟨r.members.take 3⟩ : Roster).Distinct ∧ ((⟨r.members.take 3⟩ : Roster).after ops).Distinct := by
  intro sick r ops r'
  obtain ⟨orderly, -, -, count, others, -⟩ := rosters_keep_order r ops
  have first : Roster.FirstAt "a" r'.members 2 := by
    refine ⟨⟨_, rfl, rfl⟩, fun j less => ?_⟩
    have earlier : j = 0 ∨ j = 1 := by omega
    rcases earlier with rfl | rfl <;> decide
  obtain ⟨m, -, -, taken⟩ := orderly.takes "a" 2 first
  have missing := (orderly.refuses "nobody" _).2 ⟨rfl, by decide⟩
  have once : (⟨r.members.take 3⟩ : Roster).Distinct := by decide
  exact ⟨by decide, count "a", first, ⟨m, taken⟩, missing, others, by decide, once,
    (rosters_keep_order ⟨r.members.take 3⟩ ops).2.2.2.2.2 once⟩

end FleetHealth

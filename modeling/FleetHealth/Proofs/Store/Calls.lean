import FleetHealth.Proofs.Pass.Carried
import Mathlib.Data.List.Nodup

/-!
Runs of calls on a store.

Targets are put in, asked for and written, and the store is switched off and on, in any order and on
any names. `Store.result_perform` says once what a call can do; from it follow what a run keeps: every
name is there at most once (`Store.Distinct`), the version of a target counts the writes that it has
had (`Store.Grown`), and so, of two writes over one version, only the first succeeds.
-/

namespace FleetHealth.Store

/-! ### Calls and runs -/

/-- A call on a store. -/
inductive Operation
  | insert (t : Target)
  | get (name : String)
  | patch (base : Target) (status : Composite)
  | setUnavailable (value : Bool)

/-- What a call is answered. -/
inductive Answer
  | done
  | got (answer : Except Error (Option Target))
  | patched (answer : Except Error Target)

/-- The answer to a call, and the store after it. -/
def perform (s : Store) : Operation → Answer × Store
  | .insert t => (.done, s.insert t)
  | .get name => (.got (s.get name), s)
  | .patch base status =>
    match s.patch base status with
    | .ok (t, s') => (.patched (.ok t), s')
    | .error e => (.patched (.error e), s)
  | .setUnavailable value => (.done, { s with unavailable := value })

/-- The call was refused. -/
inductive Answer.Fails : Answer → Prop
  | got (e : Error) : Fails (.got (.error e))
  | patched (e : Error) : Fails (.patched (.error e))

/-- The store after some calls. -/
def after (s : Store) (ops : List Operation) : Store :=
  ops.foldl (fun s op => (s.perform op).2) s

/-- The name of the target that a call has written, if it was a write that succeeded. -/
def success? : Operation → Answer → Option String
  | .patch base _, .patched (.ok _) => some base.name
  | _, _ => none

/-- The names of the targets that some calls write, in the order of the writes that succeed. -/
def successes (s : Store) : List Operation → List String
  | [] => []
  | op :: ops => (success? op (s.perform op).1).toList ++ (s.perform op).2.successes ops

/-- What a call says about the store being available, if it does. -/
def Operation.switch? : Operation → Option Bool
  | .setUnavailable value => some value
  | _ => none

/-- Something holds of the store before, between and after some calls. -/
def Throughout (P : Store → Prop) (s : Store) : List Operation → Prop
  | [] => P s
  | op :: ops => P s ∧ (s.perform op).2.Throughout P ops

instance instDecidableThroughout (P : Store → Prop) [DecidablePred P] (s : Store) :
    (ops : List Operation) → Decidable (s.Throughout P ops)
  | [] => inferInstanceAs (Decidable (P s))
  | op :: ops => @instDecidableAnd _ _ _ (instDecidableThroughout P (s.perform op).2 ops)

/-- No target has the greatest version, so each can still be written. -/
def Below (s : Store) : Prop := ∀ t ∈ s.targets, t.version.toNat + 1 < UInt64.size

instance : DecidablePred Below :=
  fun s => inferInstanceAs (Decidable (∀ t ∈ s.targets, t.version.toNat + 1 < UInt64.size))

/-- No call puts in a target with this name. -/
def Spares (name : String) (ops : List Operation) : Prop :=
  ∀ t, Operation.insert t ∈ ops → t.name ≠ name

section

variable {s s' : Store} {t : Target} {op : Operation} {ops ops₁ ops₂ : List Operation}
  {name : String} {P : Store → Prop}

theorem after_append (s : Store) (ops₁ ops₂ : List Operation) :
    s.after (ops₁ ++ ops₂) = (s.after ops₁).after ops₂ :=
  List.foldl_append

theorem after_cons (s : Store) (op : Operation) (ops : List Operation) :
    s.after (op :: ops) = (s.perform op).2.after ops := rfl

theorem Throughout.last (h : s.Throughout P ops) : P (s.after ops) := by
  induction ops generalizing s with
  | nil => exact h
  | cons op ops ih => exact ih h.2

theorem Throughout.right (h : s.Throughout P (ops₁ ++ ops₂)) :
    (s.after ops₁).Throughout P ops₂ := by
  induction ops₁ generalizing s with
  | nil => exact h
  | cons op ops ih => exact ih h.2

/-! ### Each name at most once -/

/-- No two targets have one name. -/
def Distinct (s : Store) : Prop := (s.targets.map Target.name).Nodup

theorem find?_eq_none_iff : s.find? name = none ↔ ∀ t ∈ s.targets, t.name ≠ name := by
  simp [find?, List.find?_eq_none]

theorem Distinct.find?_eq_some_iff (h : s.Distinct) :
    s.find? name = some t ↔ t ∈ s.targets ∧ t.name = name := by
  refine ⟨fun found => ⟨List.mem_of_find?_eq_some found, name_of_find? found⟩, ?_⟩
  rintro ⟨mem, rfl⟩
  cases found : s.find? t.name with
  | none => exact absurd rfl (find?_eq_none_iff.1 found t mem)
  | some u =>
    have there : u ∈ s.targets := List.mem_of_find?_eq_some found
    rw [List.inj_on_of_nodup_map h there mem (name_of_find? found)]

theorem names_putTarget (t : Target) (ts : List Target) :
    (putTarget t ts).map Target.name =
      if t.name ∈ ts.map Target.name then ts.map Target.name
      else ts.map Target.name ++ [t.name] := by
  induction ts with
  | nil => rfl
  | cons u ts ih =>
    by_cases same : u.name = t.name
    · simp [putTarget, same]
    · have other : t.name ≠ u.name := Ne.symm same
      simp only [putTarget, if_neg same, List.map_cons, ih, List.mem_cons, other, false_or]
      split <;> rfl

theorem Distinct.insert (h : s.Distinct) (t : Target) : (s.insert t).Distinct := by
  show ((putTarget t s.targets).map Target.name).Nodup
  rw [names_putTarget]
  split
  · exact h
  · next new =>
    rw [← List.concat_eq_append]
    exact List.Nodup.concat new h

/-- A target that is put in the place of the one of its name moves no other. -/
theorem putTarget_eq_map (t : Target) {ts : List Target} (distinct : (ts.map Target.name).Nodup)
    (there : t.name ∈ ts.map Target.name) :
    putTarget t ts = ts.map fun u => if u.name = t.name then t else u := by
  induction ts with
  | nil => cases there
  | cons u ts ih =>
    obtain ⟨once, distinct⟩ := List.nodup_cons.1 distinct
    by_cases same : u.name = t.name
    · have others : ts.map (fun v => if v.name = t.name then t else v) = ts := by
        refine (List.map_congr_left fun v hv => ?_).trans (List.map_id ts)
        refine if_neg fun same' => once ?_
        rw [same, ← same']
        exact List.mem_map_of_mem hv
      simp [putTarget, same, others]
    · have later : t.name ∈ ts.map Target.name :=
        (List.mem_cons.1 there).resolve_left (Ne.symm same)
      simp [putTarget, same, ih distinct later]

/-! ### What a call does -/

/-- What can come of a call. -/
inductive Result (s : Store) : Operation → Answer → Store → Prop
  /-- At most the availability of the store changes. -/
  | none {op : Operation} {answer : Answer} (value : Bool) (quiet : success? op answer = none)
      (switch : value = op.switch?.getD s.unavailable) :
      Result s op answer { s with unavailable := value }
  | insert (t : Target) : Result s (.insert t) .done (s.insert t)
  | write {base : Target} {status : Composite} (stored : Target) (up : s.unavailable = false)
      (found : s.find? base.name = some stored) (version : stored.version = base.version) :
      Result s (.patch base status) (.patched (.ok (written stored status)))
        (s.afterWrite stored status)

theorem result_perform (s : Store) (op : Operation) :
    Result s op (s.perform op).1 (s.perform op).2 := by
  cases op with
  | insert t => exact .insert t
  | get name => exact .none s.unavailable rfl rfl
  | setUnavailable value => exact .none value rfl rfl
  | patch base status =>
    cases hp : s.patch base status with
    | error e =>
      simp only [perform, hp]
      exact .none s.unavailable rfl rfl
    | ok answer =>
      obtain ⟨t, s'⟩ := answer
      obtain ⟨up, stored, found, version, rfl, rfl⟩ := patch_eq_ok_iff.1 hp
      simp only [perform, hp]
      exact .write stored up found version

theorem Result.distinct {answer : Answer} (h : Result s op answer s') (distinct : s.Distinct) :
    s'.Distinct := by
  cases h with
  | none => exact distinct
  | insert t => exact distinct.insert t
  | @write _ status stored => exact distinct.insert (written stored status)

theorem Result.patchCount {answer : Answer} (h : Result s op answer s') :
    s'.patchCount = s.patchCount + (success? op answer).toList.length := by
  cases h with
  | none _ quiet => rw [quiet]; rfl
  | insert | write => rfl

theorem Result.unavailable {answer : Answer} (h : Result s op answer s') :
    s'.unavailable = op.switch?.getD s.unavailable := by
  cases h with
  | none _ _ switch => exact switch
  | insert | write => rfl

theorem distinct_after (h : s.Distinct) (ops : List Operation) : (s.after ops).Distinct := by
  induction ops generalizing s with
  | nil => exact h
  | cons op ops ih => exact ih ((result_perform s op).distinct h)

/-- The store counts the writes that succeed. -/
theorem patchCount_after (s : Store) (ops : List Operation) :
    (s.after ops).patchCount = s.patchCount + (s.successes ops).length := by
  induction ops generalizing s with
  | nil => rfl
  | cons op ops ih =>
    rw [successes, List.length_append, ← Nat.add_assoc, ← (result_perform s op).patchCount]
    exact ih _

/-- The last call that says whether the store is available decides. -/
theorem unavailable_after (s : Store) (ops : List Operation) :
    (s.after ops).unavailable = (ops.filterMap Operation.switch?).getLast?.getD s.unavailable := by
  induction ops generalizing s with
  | nil => rfl
  | cons op ops ih =>
    show ((s.perform op).2.after ops).unavailable = _
    rw [ih, (result_perform s op).unavailable, List.filterMap_cons]
    cases op.switch? with
    | none => rfl
    | some value =>
      rw [List.getLast?_cons]
      rfl

/-! ### Versions count writes -/

/-- What has become of the target of a name by so many writes: it is still missing, or its version
has been raised by one with each, and without any it is the same. -/
inductive Grown : Nat → Option Target → Option Target → Prop
  | missing : Grown 0 none none
  | there {k : Nat} {t u : Target} (raised : u.version.toNat = t.version.toNat + k)
      (same : k = 0 → u = t) : Grown k (some t) (some u)

theorem grown_refl (t : Option Target) : Grown 0 t t := by
  cases t with
  | none => exact .missing
  | some t => exact .there rfl fun _ => rfl

/-- A target that is there stays there. -/
theorem Grown.of_some {k : Nat} {v : Option Target} (h : Grown k (some t) v) :
    ∃ u, v = some u ∧ u.version.toNat = t.version.toNat + k ∧ (k = 0 → u = t) := by
  cases h with
  | there raised same => exact ⟨_, rfl, raised, same⟩

theorem Grown.trans {k l : Nat} {t u v : Option Target} (h : Grown k t u) (h' : Grown l u v) :
    Grown (k + l) t v := by
  cases h with
  | missing =>
    rw [Nat.zero_add]
    exact h'
  | there raised same =>
    cases h' with
    | there raised' same' =>
      refine .there (by omega) fun zero => ?_
      rw [same' (by omega), same (by omega)]

/-- A call raises the version of the target of a name if it writes that target, and otherwise leaves
it alone, unless it puts one in. -/
theorem Result.grown {answer : Answer} (h : Result s op answer s') (below : s.Below)
    (spares : ∀ t, op = .insert t → t.name ≠ name) :
    Grown ((success? op answer).toList.count name) (s.find? name) (s'.find? name) := by
  cases h with
  | none _ quiet =>
    rw [quiet]
    exact grown_refl _
  | insert t =>
    rw [find?_insert, if_neg (spares t rfl)]
    exact grown_refl _
  | @write base status stored up found version =>
    have named := name_of_find? found
    rw [find?_afterWrite, named]
    by_cases same : base.name = name
    · subst same
      have room := below stored (List.mem_of_find?_eq_some found)
      rw [found, if_pos rfl]
      refine .there ?_ fun zero => absurd zero (by simp [success?])
      simpa [success?] using version_written room status
    · rw [if_neg same]
      simpa [success?, same] using grown_refl (s.find? name)

theorem grown_after (below : s.Throughout Below ops) (spares : Spares name ops) :
    Grown ((s.successes ops).count name) (s.find? name) ((s.after ops).find? name) := by
  induction ops generalizing s with
  | nil => exact grown_refl _
  | cons op ops ih =>
    have first := (result_perform s op).grown below.1 fun t ht => spares t (ht ▸ List.mem_cons_self)
    have rest := ih below.2 fun t ht => spares t (List.mem_cons_of_mem _ ht)
    rw [successes, List.count_append]
    exact first.trans rest

/-- A write that succeeds has found its version, and leaves behind the target that it answers. -/
theorem perform_patch_eq_ok {base : Target} {status : Composite}
    (h : (s.perform (.patch base status)).1 = .patched (.ok t)) :
    ∃ stored, s.find? base.name = some stored ∧ stored.version = base.version ∧
      t = written stored status ∧
      (s.perform (.patch base status)).2.find? base.name = some (written stored status) := by
  have result := result_perform s (.patch base status)
  generalize s.perform (.patch base status) = p at h result
  obtain ⟨answer, s'⟩ := p
  obtain rfl : answer = .patched (.ok t) := h
  cases result with
  | none _ quiet => cases quiet
  | write stored up found version => exact ⟨stored, found, version, rfl, find?_afterWrite_self found⟩

/-- A call that is refused changes nothing. -/
theorem perform_of_fails (h : (s.perform op).1.Fails) : (s.perform op).2 = s := by
  cases op with
  | get => rfl
  | insert | setUnavailable => cases h
  | patch base status =>
    simp only [perform] at h ⊢
    split
    · next written =>
      rw [written] at h
      cases h
    · rfl

/-! ### The contract of a write -/

/-- What a write does to a store: when and why it is refused; and that otherwise the one target is
written, and all others stay as they are and where they are. Of the base, the status does not
count. -/
structure Swaps (s : Store) (base : Target) (status : Composite) : Prop where
  unavailable : s.patch base status = .error .unavailable ↔ s.unavailable = true
  notFound : s.unavailable = false → (s.patch base status = .error (.targetNotFound base.name) ↔
    ∀ t ∈ s.targets, t.name ≠ base.name)
  conflict : s.unavailable = false → ∀ stored ∈ s.targets, stored.name = base.name →
    (s.patch base status = .error (.conflict base.name base.version stored.version) ↔
      stored.version ≠ base.version)
  succeeds : s.unavailable = false → ∀ stored ∈ s.targets, stored.name = base.name →
    stored.version = base.version → ∃ t s', s.patch base status = .ok (t, s') ∧
      t.name = stored.name ∧ t.status = some status ∧
      t.version.toNat = stored.version.toNat + 1 ∧
      s'.targets = (s.targets.map fun u => if u = stored then t else u) ∧
      s'.patchCount = s.patchCount + 1 ∧ s'.get base.name = .ok (some t)
  blind : ∀ carried, s.patch { base with status := carried } status = s.patch base status

theorem Distinct.swaps (h : s.Distinct) (below : s.Below) (base : Target) (status : Composite) :
    s.Swaps base status where
  unavailable := by
    unfold patch
    cases s.unavailable with
    | true => simp
    | false =>
      simp only [Bool.false_eq_true, if_false, iff_false]
      split
      · nofun
      · split <;> nofun
  notFound up := by
    rw [← find?_eq_none_iff]
    unfold patch
    rw [if_neg (by simp [up])]
    cases s.find? base.name with
    | none => simp
    | some stored =>
      simp only [reduceCtorEq, iff_false]
      split <;> nofun
  conflict up stored mem named := by
    have found := h.find?_eq_some_iff.2 ⟨mem, named⟩
    constructor
    · intro refused version
      rw [patch_of_version_eq up found version] at refused
      cases refused
    · exact patch_of_version_ne up found
  succeeds up stored mem named version := by
    have found := h.find?_eq_some_iff.2 ⟨mem, named⟩
    refine ⟨_, _, patch_of_version_eq up found version, rfl, rfl,
      version_written (below stored mem) status, ?_, rfl, ?_⟩
    · have there : stored.name ∈ s.targets.map Target.name := List.mem_map_of_mem mem
      have moved := putTarget_eq_map (written stored status) h there
      refine moved.trans (List.map_congr_left fun u hu => ?_)
      have only : u.name = stored.name ↔ u = stored :=
        ⟨List.inj_on_of_nodup_map h hu mem, congrArg _⟩
      simp only [written, only]
    · rw [get_eq_ok_some_iff]
      exact ⟨up, find?_afterWrite_self found⟩
  blind carried := rfl

end

end Store

open Store in
/-- Any calls on a new store, with versions that can still be raised. At every point a write is
refused or takes place by the contract `Swaps`, and a call that is refused changes nothing; no two
targets have one name, and whoever asks for a name is given the target of that name; the store has
counted the writes that succeeded; and whether it is available is what was said last. Over calls that
put in no target of a name, the version of the target of that name grows by one with each write of it
that succeeds, and otherwise the target stays the same; so of two writes over one version only one
succeeds, and until the next write of a name, whoever asks for it is given what the last one was
answered. -/
theorem calls_compare_and_swap {s : Store} {ops : List Operation}
    (new : s = .empty ∨ ∃ n, s = .single n) (below : s.Throughout Below ops) :
    let s' := s.after ops
    (∀ base status, s'.Swaps base status) ∧
      (∀ op, (s'.perform op).1.Fails → (s'.perform op).2 = s') ∧
      s'.Distinct ∧
      (∀ n t, s'.get n = .ok (some t) ↔ s'.unavailable = false ∧ t ∈ s'.targets ∧ t.name = n) ∧
      s'.patchCount = (s.successes ops).length ∧
      s'.unavailable = (ops.filterMap Operation.switch?).getLast?.getD false ∧
      (∀ ops₁ ops₂ n, ops = ops₁ ++ ops₂ → Spares n ops₂ →
        Grown (((s.after ops₁).successes ops₂).count n) ((s.after ops₁).find? n) (s'.find? n)) ∧
      ∀ ops₁ base status ops₂ t, ops = ops₁ ++ .patch base status :: ops₂ →
        Spares base.name ops₂ →
        ((s.after ops₁).perform (.patch base status)).1 = .patched (.ok t) →
        (∀ base' status', base'.name = base.name → base'.version = base.version →
          ∀ t', (s'.perform (.patch base' status')).1 ≠ .patched (.ok t')) ∧
        (base.name ∉ ((s.after ops₁).perform (.patch base status)).2.successes ops₂ →
          s'.unavailable = false → s'.get base.name = .ok (some t)) := by
  intro s'
  have distinct : s.Distinct := by
    rcases new with rfl | ⟨n, rfl⟩
    · exact List.nodup_nil
    · exact List.nodup_singleton _
  have fresh : s.patchCount = 0 ∧ s.unavailable = false := by
    rcases new with rfl | ⟨n, rfl⟩ <;> exact ⟨rfl, rfl⟩
  have distinct' : s'.Distinct := distinct_after distinct ops
  refine ⟨distinct'.swaps below.last, fun _ => perform_of_fails, distinct', fun n t => ?_, ?_, ?_, ?_,
    ?_⟩
  · rw [get_eq_ok_some_iff, distinct'.find?_eq_some_iff]
  · rw [patchCount_after, fresh.1, Nat.zero_add]
  · rw [unavailable_after, fresh.2]
  · rintro ops₁ ops₂ n rfl spares
    have grown := grown_after below.right spares
    rwa [← after_append] at grown
  · rintro ops₁ base status ops₂ t rfl spares succeeded
    obtain ⟨stored, found, version, rfl, left⟩ := perform_patch_eq_ok succeeded
    have below' := below.right
    have room := below'.1 stored (List.mem_of_find?_eq_some found)
    have raised := version_written room status
    have grown := grown_after below'.2 spares
    rw [left, ← after_cons, ← after_append] at grown
    obtain ⟨u, now, later, same⟩ := grown.of_some
    refine ⟨fun base' status' named old t' again => ?_, fun spared up => ?_⟩
    · obtain ⟨u', found', version', -⟩ := perform_patch_eq_ok again
      rw [named, now, Option.some.injEq] at found'
      have equal : u.version.toNat = stored.version.toNat := by
        rw [found', version', old, version]
      omega
    · rw [get_eq_ok_some_iff, ← same (List.count_eq_zero.2 spared)]
      exact ⟨up, now⟩

/-- Two targets; writes over a version that is no longer there, of a name that is missing and while
the store is off. -/
def twoTargets : List Store.Operation :=
  let calm := Listing.composite (.ok []) none .epoch
  let lost := Listing.composite (.error "offline") none .epoch
  [.insert ⟨"other", 5, some lost⟩, .patch ⟨"agg", 0, some lost⟩ calm, .get "agg",
    .setUnavailable true, .patch ⟨"agg", 1, none⟩ lost, .insert ⟨"other", 3, none⟩, .get "agg",
    .setUnavailable false, .patch ⟨"agg", 0, none⟩ lost, .patch ⟨"nobody", 0, none⟩ lost,
    .patch ⟨"other", 3, none⟩ lost, .patch ⟨"agg", 1, none⟩ lost, .patch ⟨"agg", 1, none⟩ calm]

/-- Three of the eight writes succeed, two of them on the target that was there at first. -/
theorem calls_compare_and_swap_twoTargets :
    let s := (Store.single "agg").after twoTargets
    (Store.single "agg").Throughout Store.Below twoTargets ∧
      (Store.single "agg").successes twoTargets = ["agg", "other", "agg"] ∧
      s.patchCount = 3 ∧
      Store.Grown 2 (some (.new "agg")) (s.find? "agg") ∧
      (∀ base' status', base'.name = "agg" → base'.version = 0 →
        ∀ t', (s.perform (.patch base' status')).1 ≠ .patched (.ok t')) := by
  have below : (Store.single "agg").Throughout Store.Below twoTargets := by decide +kernel
  obtain ⟨-, -, -, -, count, -, grown, once⟩ := calls_compare_and_swap (.inr ⟨"agg", rfl⟩) below
  have spares (ops) (h : ops <:+ twoTargets) : Store.Spares "agg" ops := by
    intro t ht
    have member := h.subset ht
    simp only [twoTargets, List.mem_cons, reduceCtorEq, false_or, Store.Operation.insert.injEq,
      List.not_mem_nil, or_false] at member
    rcases member with rfl | rfl <;> decide
  have successes : (Store.single "agg").successes twoTargets = ["agg", "other", "agg"] := by
    decide +kernel
  refine ⟨below, successes, count.trans (by rw [successes]; rfl), ?_, ?_⟩
  · have all := grown [] twoTargets "agg" rfl (spares _ List.suffix_rfl)
    rwa [Store.after, List.foldl_nil, successes] at all
  · exact (once (twoTargets.take 1) _ _ (twoTargets.drop 2) _ rfl
      (spares _ (List.drop_suffix 2 _)) rfl).1

end FleetHealth

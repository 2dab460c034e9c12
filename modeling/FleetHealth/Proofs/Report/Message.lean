import FleetHealth.Proofs.Pass.Outcome

/-!
What the message of a report tells.

Names may contain all that the message is put together with: brackets, commas, even the words between
a name and a reason. Only quotes set the entries apart. Where no name contains one, each entry ends at
its second quote (`append_phrase_inj`), so the message can be read in one way only and tells the
troubles in their order (`wording_inj`).
-/

namespace FleetHealth

namespace Report

/-- What follows the first of several entries. -/
def others : List (String × Reason) → List Char
  | [] => [']']
  | t :: ts => [',', ' '] ++ ((phrase t).toList ++ others ts)

/-- No name contains a quote. -/
def Unquoted (ts : List (String × Reason)) : Prop :=
  ∀ t ∈ ts, '"' ∉ t.1.toList

section

variable {t t' : String × Reason} {ts ts' : List (String × Reason)} {a b r s : List Char}

/-! ### One entry -/

/-- A text is cut in one way only at its first quote. -/
theorem append_quote_inj (unquoted : '"' ∉ a) (unquoted' : '"' ∉ b)
    (same : a ++ '"' :: r = b ++ '"' :: s) : a = b ∧ r = s := by
  induction a generalizing b with
  | nil =>
    cases b with
    | nil => exact ⟨rfl, (List.cons.inj same).2⟩
    | cons y b => exact absurd ((List.cons.inj same).1 ▸ List.mem_cons_self) unquoted'
  | cons x a ih =>
    cases b with
    | nil => exact absurd ((List.cons.inj same).1 ▸ List.mem_cons_self) unquoted
    | cons y b =>
      obtain ⟨rfl, tail⟩ := List.cons.inj same
      obtain ⟨rfl, rest⟩ := ih (fun h => unquoted (List.mem_cons_of_mem _ h))
        (fun h => unquoted' (List.mem_cons_of_mem _ h)) tail
      exact ⟨rfl, rest⟩

theorem unquoted_name (reason : Reason) : '"' ∉ reason.name.toList := by
  cases reason <;> decide

theorem toList_phrase (t : String × Reason) : (phrase t).toList =
    t.1.toList ++ " is failing: ".toList ++ '"' :: (t.2.name.toList ++ ['"']) := by
  simp [phrase]

/-- An entry in a text, after something without a quote: what comes up to the name, the reason and
what comes after the entry can be told. -/
theorem append_phrase_inj (before : '"' ∉ a) (before' : '"' ∉ b) (unquoted : '"' ∉ t.1.toList)
    (unquoted' : '"' ∉ t'.1.toList)
    (same : a ++ ((phrase t).toList ++ r) = b ++ ((phrase t').toList ++ s)) :
    a ++ t.1.toList = b ++ t'.1.toList ∧ t.2 = t'.2 ∧ r = s := by
  have cut : (a ++ t.1.toList ++ " is failing: ".toList) ++ '"' :: (t.2.name.toList ++ '"' :: r) =
      (b ++ t'.1.toList ++ " is failing: ".toList) ++ '"' :: (t'.2.name.toList ++ '"' :: s) := by
    simpa [toList_phrase] using same
  obtain ⟨front, back⟩ := append_quote_inj (by simp [before, unquoted])
    (by simp [before', unquoted']) cut
  obtain ⟨reason, rest⟩ := append_quote_inj (unquoted_name _) (unquoted_name _) back
  refine ⟨List.append_cancel_right front, ?_, rest⟩
  rw [← Reason.ofName_name t.2, ← Reason.ofName_name t'.2, String.toList_inj.1 reason]

/-- After the same beginning, the entries are the same. -/
theorem append_phrase_cancel (before : '"' ∉ a) (unquoted : '"' ∉ t.1.toList)
    (unquoted' : '"' ∉ t'.1.toList)
    (same : a ++ ((phrase t).toList ++ r) = a ++ ((phrase t').toList ++ s)) : t = t' ∧ r = s := by
  obtain ⟨name, reason, rest⟩ := append_phrase_inj before before unquoted unquoted' same
  exact ⟨Prod.ext (String.toList_inj.1 (List.append_cancel_left name)) reason, rest⟩

/-! ### Several entries -/

theorem others_inj (unquoted : Unquoted ts) (unquoted' : Unquoted ts')
    (same : others ts = others ts') : ts = ts' := by
  induction ts generalizing ts' with
  | nil =>
    cases ts' with
    | nil => rfl
    | cons t' ts' => simp [others] at same
  | cons t ts ih =>
    cases ts' with
    | nil => simp [others] at same
    | cons t' ts' =>
      obtain ⟨here, later⟩ := List.forall_mem_cons.1 unquoted
      obtain ⟨here', later'⟩ := List.forall_mem_cons.1 unquoted'
      obtain ⟨rfl, rest⟩ := append_phrase_cancel (by decide) here here' same
      rw [ih later later' rest]

theorem toList_wording_one (t : String × Reason) :
    (wording [t]).toList = [] ++ ((phrase t).toList ++ []) := by
  simp [wording]

theorem toList_wording_several (t t' : String × Reason) (ts : List (String × Reason)) :
    (wording (t :: t' :: ts)).toList =
      ['['] ++ ((phrase t).toList ++ others (t' :: ts)) := by
  have rest (u : String × Reason) (ts : List (String × Reason)) :
      [',', ' '].intercalate ((phrase u).toList :: ts.map (String.toList ∘ phrase)) ++ [']'] =
        (phrase u).toList ++ others ts := by
    induction ts generalizing u with
    | nil => simp [others]
    | cons v ts ih => simp [others, List.intercalate_cons_cons, ← ih v]
  have all := rest t (t' :: ts)
  simp only [List.map_cons] at all ⊢
  simp only [wording, String.toList_append, String.toList_intercalate, List.map_cons, List.map_map]
  exact congrArg ('[' :: ·) all

/-- After its first entry the one text is at its end, and the other is not. -/
theorem wording_one_ne_several {u : String × Reason} (unquoted : Unquoted [t])
    (unquoted' : Unquoted (t' :: u :: ts')) : wording [t] ≠ wording (t' :: u :: ts') := by
  intro same
  have same := congrArg String.toList same
  rw [toList_wording_one, toList_wording_several] at same
  have ended := (append_phrase_inj (by decide) (by decide) (unquoted t List.mem_cons_self)
    (unquoted' t' List.mem_cons_self) same).2.2
  simp [others] at ended

/-- The text tells the troubles, if there are any. -/
theorem wording_inj (unquoted : Unquoted ts) (unquoted' : Unquoted ts') (nonempty : ts ≠ [])
    (nonempty' : ts' ≠ []) (same : wording ts = wording ts') : ts = ts' := by
  match ts, ts', nonempty, nonempty' with
  | [t], [t'], _, _ =>
    have same := congrArg String.toList same
    rw [toList_wording_one, toList_wording_one] at same
    rw [(append_phrase_cancel (by decide) (unquoted t List.mem_cons_self)
      (unquoted' t' List.mem_cons_self) same).1]
  | [t], t' :: u' :: ts', _, _ => exact absurd same (wording_one_ne_several unquoted unquoted')
  | t :: u :: ts, [t'], _, _ => exact absurd same.symm (wording_one_ne_several unquoted' unquoted)
  | t :: u :: ts, t' :: u' :: ts', _, _ =>
    have same := congrArg String.toList same
    rw [toList_wording_several, toList_wording_several] at same
    obtain ⟨here, later⟩ := List.forall_mem_cons.1 unquoted
    obtain ⟨here', later'⟩ := List.forall_mem_cons.1 unquoted'
    obtain ⟨rfl, rest⟩ := append_phrase_cancel (by decide) here here' same
    rw [others_inj later later' rest]

end

/-! ### Reports on members -/

variable {ms : List Member}

theorem exists_of_fails (fails : SomeFails ms) :
    ∃ r, of? ms = some r ∧ r.message = wording (troubles ms) ∧
      Listing.outcome (.ok ms) = .failing r.message ∧
      (Listing.contents (.ok ms)).available.message = r.message := by
  obtain ⟨r, reported⟩ :=
    Option.ne_none_iff_exists'.1 fun unreported => (of?_eq_none_iff ms).1 unreported fails
  have said : r.message = reportMessage ms := message_of_report reported
  refine ⟨r, reported, said, ?_, ?_⟩
  · rw [Listing.outcome, if_neg fails.ne_nil, if_pos fails, said]
  · rw [Listing.contents, if_neg fails.ne_nil, if_pos fails, said]

theorem unquoted_troubles (unquoted : ∀ m ∈ ms, '"' ∉ m.name.toList) : Unquoted (troubles ms) := by
  intro t mem
  obtain ⟨m, here, mem⟩ := List.mem_flatMap.1 mem
  obtain ⟨c, -, rfl⟩ := List.mem_map.1 mem
  exact unquoted m here

end Report

/-- Two lists of members, each with a condition that fails, and no quote in a name. The messages of
their reports are what the slot says, and they are equal exactly if the troubles are: the names and
reasons of the failing conditions, in order and as often as they occur. So when the troubles have
changed, whoever comes with the new message to a target that carries the old one does not find it
unchanged, and a pass over a target that shows the old members writes, and leaves it showing the new
ones. -/
theorem messages_tell_troubles {ms ms' : List Member}
    (unquoted : ∀ m ∈ ms ++ ms', '"' ∉ m.name.toList) (fails : SomeFails ms)
    (fails' : SomeFails ms') :
    ∃ r r', Report.of? ms = some r ∧ Report.of? ms' = some r' ∧
      (Listing.contents (.ok ms)).available.message = r.message ∧
      (Listing.contents (.ok ms')).available.message = r'.message ∧
      (r.message = r'.message ↔ troubles ms = troubles ms') ∧
      (troubles ms ≠ troubles ms' →
        (∀ (s : Store) (t : Target) (c desired : Composite), t.status = some c →
          c.available.message = r.message → desired.available.message = r'.message →
          (s.update t desired).1 ≠ .ok .unchanged) ∧
        ∀ (store : Store) (name : String) (around : Site), store.Shows name (.ok ms) →
          around.list = .ok ms' →
          (store.visited name around).patchCount = store.patchCount + 1 ∧
            (store.visited name around).Shows name (.ok ms')) := by
  obtain ⟨here, there⟩ := List.forall_mem_append.1 unquoted
  obtain ⟨r, reported, message, outcome, slot⟩ := Report.exists_of_fails fails
  obtain ⟨r', reported', message', outcome', slot'⟩ := Report.exists_of_fails fails'
  have told : r.message = r'.message ↔ troubles ms = troubles ms' := by
    rw [message, message']
    refine ⟨Report.wording_inj (Report.unquoted_troubles here)
      (Report.unquoted_troubles there) ?_ ?_, fun same => by rw [same]⟩
    · exact fun nothing => (troubles_eq_nil_iff ms).1 nothing fails
    · exact fun nothing => (troubles_eq_nil_iff ms').1 nothing fails'
  refine ⟨r, r', reported, reported', slot, slot', told, fun changed => ⟨?_, ?_⟩⟩
  · intro s t c desired carried old new unchanged
    have carries : t.carries desired = true := by
      rw [Store.update] at unchanged
      split at unchanged
      · assumption
      · split at unchanged <;> cases unchanged
    rw [Target.carries_iff, carried, Option.some.injEq] at carries
    exact changed (told.1 (by rw [← old, ← new, carries]))
  · intro store name around shows_old list
    have differs : around.list.outcome ≠ Listing.outcome (.ok ms) := by
      rw [list, outcome, outcome']
      exact fun same => changed (told.1 (Outcome.failing.inj same).symm)
    refine ⟨(shows_old.visited around).2 differs, ?_⟩
    obtain ⟨up, t, found, -⟩ := shows_old
    exact list ▸ Store.shows_visited up found around

/-- A member whose name looks like a message, and whose two conditions come in the other order. -/
theorem messages_tell_troubles_swapped :
    let m : Member := ⟨"[a is failing: , b]", ⟨[.installed .no .sourceFailed,
      .installed .no .applyFailed]⟩⟩
    let m' : Member := ⟨m.name, ⟨m.status.conditions.reverse⟩⟩
    let site : Site := .new (.single "agg") ⟨[m]⟩
    let site' : Site := { site with roster := ⟨[m']⟩ }
    let first := (Store.single "agg").visited "agg" site
    (∀ x ∈ [m] ++ [m'], '"' ∉ x.name.toList) ∧ SomeFails [m] ∧ SomeFails [m'] ∧
      (∃ r r', Report.of? [m] = some r ∧ Report.of? [m'] = some r' ∧ r.message ≠ r'.message) ∧
      first.patchCount = 1 ∧ (first.visited "agg" site').patchCount = 2 := by
  intro m m' site site' first
  have unquoted : ∀ x ∈ [m] ++ [m'], '"' ∉ x.name.toList := by decide
  have fails : SomeFails [m] := by decide
  have fails' : SomeFails [m'] := by decide
  have differ : troubles [m] ≠ troubles [m'] := by decide
  have found : (Store.single "agg").find? "agg" = some (.new "agg") := by decide
  have shown : first.Shows "agg" (.ok [m]) := Store.shows_visited rfl found site
  have once : first.patchCount = 1 := by decide +kernel
  obtain ⟨r, r', reported, reported', -, -, told, changed⟩ :=
    messages_tell_troubles unquoted fails fails'
  refine ⟨unquoted, fails, fails', ⟨r, r', reported, reported', mt told.1 differ⟩, once, ?_⟩
  rw [((changed differ).2 first "agg" site' shown rfl).1, once]

/-- A quote in a name can hide an entry. -/
example :
    let a : Member := ⟨"a", ⟨[.installed .no .applyFailed]⟩⟩
    let b : Member := ⟨"b", ⟨[.installed .no .applyFailed]⟩⟩
    let both : Member := ⟨"a is failing: \"ApplyFailed\", b", ⟨[.installed .no .applyFailed]⟩⟩
    reportMessage [a, a, b] = reportMessage [a, both] ∧
      troubles [a, a, b] ≠ troubles [a, both] := by
  decide

end FleetHealth

import FleetHealth.Proofs.Pass.Carried

/-!
Drafts by their last calls.

Calls on a draft may come in any order and any number. Of each part only the last call that speaks of
it counts (`entry_foldl`), so two lists of calls with the same last calls lead to one draft
(`foldl_apply_eq`). The time is the draft's, not the call's: a composite status that is drafted again
over itself comes out as it is, whenever that is done (`composite_again`).
-/

namespace FleetHealth

open FleetHealth.Time (Instant)

namespace Draft

/-- The part that a call speaks of. -/
def Call.part : Call → Part
  | .progressing .. => .progressing
  | .degraded _ => .degraded
  | .available .. => .available

/-- What a call says. That a fleet is progressing has no message, and that it is degraded has neither
a reason nor a message. -/
def Call.entry : Call → Entry
  | .progressing value reason => ⟨.ofBool value, reason, ""⟩
  | .degraded value => ⟨.ofBool value, "", ""⟩
  | .available value reason message => ⟨.ofBool value, reason, message⟩

/-- The last call that speaks of a part, if there is one. -/
def lastCall? (x : Part) (cs : List Call) : Option Call :=
  (cs.filter (·.part = x)).getLast?

/-- What calls say of a part: what the last of them says, or that nothing is known. -/
def lastSaid (x : Part) (cs : List Call) : Entry :=
  ((lastCall? x cs).map Call.entry).getD ⟨.unknown, "", ""⟩

/-- The composite status that calls lead to, given the one before it and the time. -/
def composite (previous : Option Composite) (now : Instant) (cs : List Call) : Composite :=
  (cs.foldl apply (new previous now)).finish

/-- What a draft says of a part. -/
def entry (d : Draft) : Part → Entry
  | .progressing => d.progressing
  | .degraded => d.degraded
  | .available => d.available

section

variable {x : Part} {c : Call} {cs ds : List Call} {d d' : Draft}

/-! ### One call after the other -/

theorem ext_entry (previous : d.previous = d'.previous) (now : d.now = d'.now)
    (entries : ∀ x, d.entry x = d'.entry x) : d = d' := by
  obtain ⟨p, n, progressing, degraded, available⟩ := d
  obtain ⟨p', n', progressing', degraded', available'⟩ := d'
  obtain rfl : p = p' := previous
  obtain rfl : n = n' := now
  obtain rfl : progressing = progressing' := entries .progressing
  obtain rfl : degraded = degraded' := entries .degraded
  obtain rfl : available = available' := entries .available
  rfl

theorem entry_apply (d : Draft) (c : Call) (x : Part) :
    (d.apply c).entry x = if c.part = x then c.entry else d.entry x := by
  cases c <;> cases x <;> rfl

theorem lastCall?_cons (x : Part) (c : Call) (cs : List Call) :
    lastCall? x (c :: cs) = (lastCall? x cs).or (if c.part = x then some c else none) := by
  simp only [lastCall?, List.filter_cons, decide_eq_true_eq]
  split
  · rw [List.getLast?_cons]
    cases (cs.filter (·.part = x)).getLast? <;> rfl
  · rw [Option.or_none]

/-- Of each part, the last call that speaks of it counts. -/
theorem entry_foldl (cs : List Call) (d : Draft) (x : Part) :
    (cs.foldl apply d).entry x = ((lastCall? x cs).map Call.entry).getD (d.entry x) := by
  induction cs generalizing d with
  | nil => rfl
  | cons c cs ih =>
    rw [List.foldl_cons, ih, lastCall?_cons, entry_apply]
    cases lastCall? x cs with
    | some last => rfl
    | none => by_cases speaks : c.part = x <;> simp [speaks]

/-- Calls with the same last calls lead to the same draft. -/
theorem foldl_apply_eq (same : ∀ x, lastCall? x cs = lastCall? x ds) (d : Draft) :
    cs.foldl apply d = ds.foldl apply d := by
  refine ext_entry ?_ ?_ fun x => ?_
  · rw [(previous_now_foldl cs d).1, (previous_now_foldl ds d).1]
  · rw [(previous_now_foldl cs d).2, (previous_now_foldl ds d).2]
  · rw [entry_foldl, entry_foldl, same x]

theorem lastCall?_append (x : Part) (cs ds : List Call) :
    lastCall? x (cs ++ ds) = (lastCall? x ds).or (lastCall? x cs) := by
  rw [lastCall?, List.filter_append, List.getLast?_append]
  rfl

theorem lastCall?_isSome (h : ∃ c ∈ cs, c.part = x) : (lastCall? x cs).isSome := by
  obtain ⟨c, mem, speaks⟩ := h
  rw [lastCall?, List.getLast?_isSome]
  exact List.ne_nil_of_mem (List.mem_filter.2 ⟨mem, by simpa using speaks⟩)

/-- Calls that speak of different parts can be swapped. -/
theorem lastCall?_swap (as bs : List Call) {c c' : Call} (other : c.part ≠ c'.part) (x : Part) :
    lastCall? x (as ++ c :: c' :: bs) = lastCall? x (as ++ c' :: c :: bs) := by
  have swapped : lastCall? x (c :: c' :: bs) = lastCall? x (c' :: c :: bs) := by
    simp only [lastCall?_cons, Option.or_assoc]
    by_cases here : c.part = x
    · have there : c'.part ≠ x := fun there => other (here.trans there.symm)
      simp [here, there]
    · simp [here]
  rw [lastCall?_append, lastCall?_append, swapped]

/-- A call that is overwritten later can be left out. -/
theorem lastCall?_overwritten (as : List Call) {bs : List Call}
    (later : ∃ c' ∈ bs, c'.part = c.part) (x : Part) : lastCall? x (as ++ c :: bs) = lastCall? x (as ++ bs) := by
  have hidden : lastCall? x (c :: bs) = lastCall? x bs := by
    rw [lastCall?_cons]
    by_cases here : c.part = x
    · obtain ⟨last, found⟩ := Option.isSome_iff_exists.1 (lastCall?_isSome later)
      rw [← here, found]
      rfl
    · rw [if_neg here, Option.or_none]
  rw [lastCall?_append, lastCall?_append, hidden]

/-! ### What calls lead to -/

variable {previous : Option Composite} {now : Instant}

theorem composite_congr (same : ∀ x, lastCall? x cs = lastCall? x ds) :
    composite previous now cs = composite previous now ds :=
  congrArg finish (foldl_apply_eq same _)

theorem contents_composite (previous : Option Composite) (now : Instant) (cs : List Call) :
    (composite previous now cs).contents =
      ⟨lastSaid .progressing cs, lastSaid .degraded cs, lastSaid .available cs⟩ := by
  have said (x : Part) : (cs.foldl apply (new previous now)).entry x = lastSaid x cs := by
    rw [entry_foldl, lastSaid]
    cases x <;> rfl
  rw [composite, contents_finish, ← said, ← said, ← said]
  rfl

/-- A composite status that is drafted again over itself comes out as it is, whatever the time. -/
theorem composite_again (same : ∀ x, lastCall? x ds = lastCall? x cs) (later : Instant) :
    composite (some (composite previous now cs)) later ds = composite previous now cs := by
  have contents : (composite (some (composite previous now cs)) later ds).contents =
      (composite previous now cs).contents := by
    simp only [contents_composite, lastSaid, same]
  exact (dated_foldl _ later ds).unique (Dated.self _ later) contents

end

end Draft

/-- Whatever composite status came before, whatever the time and whatever the calls: each part says
what its last call says, and has the time that the rule of the times gives it. So two lists of calls
with the same last calls lead to the same, also when it is drafted over itself at any other time;
calls that speak of different parts can be swapped, and calls that are overwritten left out. -/
theorem last_calls_decide (previous : Option Composite) (now : Instant) (cs : List Draft.Call) :
    (Draft.composite previous now cs).contents = ⟨Draft.lastSaid .progressing cs,
      Draft.lastSaid .degraded cs, Draft.lastSaid .available cs⟩ ∧
    Dated previous now (Draft.composite previous now cs) ∧
    (∀ ds, (∀ x, Draft.lastCall? x ds = Draft.lastCall? x cs) →
      Draft.composite previous now ds = Draft.composite previous now cs ∧
      ∀ later, Draft.composite (some (Draft.composite previous now cs)) later ds =
        Draft.composite previous now cs) ∧
    (∀ as bs c d, c.part ≠ d.part → Draft.composite previous now (as ++ c :: d :: bs) =
      Draft.composite previous now (as ++ d :: c :: bs)) ∧
    ∀ as bs c, (∃ d ∈ bs, d.part = c.part) → Draft.composite previous now (as ++ c :: bs) =
      Draft.composite previous now (as ++ bs) := by
  refine ⟨Draft.contents_composite previous now cs, Draft.dated_foldl previous now cs, ?_, ?_, ?_⟩
  · intro ds same
    exact ⟨Draft.composite_congr same, Draft.composite_again same⟩
  · intro as bs c d other
    exact Draft.composite_congr (Draft.lastCall?_swap as bs other)
  · intro as bs c later
    exact Draft.composite_congr (Draft.lastCall?_overwritten as later)

/-- A fleet that is first said to be unavailable, with a part that nothing is said of: drafted over
itself a day later, in another order and without what is overwritten, it keeps its times. -/
theorem last_calls_decide_overwritten :
    let calls : List Draft.Call := [.progressing true "rollout", .available false "early" "wait",
      .progressing false "", .available true "ready" "all of it"]
    let again : List Draft.Call := [.available true "ready" "all of it", .progressing false ""]
    let first := Draft.composite none .epoch calls
    let later : Instant := ⟨1, 0, 0, by decide⟩
    (∀ x, Draft.lastCall? x again = Draft.lastCall? x calls) ∧
      first.contents =
        ⟨⟨.no, "", ""⟩, ⟨.unknown, "", ""⟩, ⟨.yes, "ready", "all of it"⟩⟩ ∧
      Draft.composite none .epoch again = first ∧
      Draft.composite (some first) later again = first := by
  intro calls again first later
  have same : ∀ x, Draft.lastCall? x again = Draft.lastCall? x calls := by
    intro x
    cases x <;> decide
  have law := last_calls_decide none .epoch calls
  obtain ⟨congruent, drafted⟩ := law.2.2.1 again same
  exact ⟨same, law.1.trans (by decide), congruent, drafted later⟩

end FleetHealth

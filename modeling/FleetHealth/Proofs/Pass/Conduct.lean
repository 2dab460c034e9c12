import FleetHealth.Proofs.Pass.Carried

/-!
The calls of a pass, whatever happens between them.

A pass finds another site at each of its steps: targets may have been put in or written, members
changed, the store switched off, the listing broken. `Pass.through` takes it through such sites.
`Pass.Conduct` is the protocol that it keeps on any of them: one fetch, one listing if there is a
target, and one write if the target as fetched does not carry what follows. Its answer is that of the
fetch and of the listing (`Pass.settled`); what becomes of the write does not count.
-/

namespace FleetHealth

open FleetHealth.Time (Instant)

namespace Pass

/-- The pass after a step on each of these sites, until it has its answer, and the calls that it made,
each with the site that it left behind. -/
def through (p : Pass) : List Site → Pass × List (Call × Site)
  | [] => (p, [])
  | s :: sites =>
    match p.result? with
    | some _ => (p, [])
    | none =>
      let (p', left, call) := p.step s
      let (p'', calls) := p'.through sites
      (p'', call.toList.map (·, left) ++ calls)

/-- The answer that a fetch and a listing settle. -/
def settled (found : Except Store.Error (Option Target)) (l : Listing) : PassResult :=
  match found with
  | .error cause => .error (.store cause)
  | .ok none => .ok none
  | .ok (some _) => l.answer

/-- What is answered to a write over a fetched target, and the site that it leaves behind: the same,
unless the write succeeds. -/
def Overwrites (s : Site) (t : Target) (c : Composite) (answer : Except Store.Error UInt64)
    (left : Site) : Prop :=
  match s.store.patch t c with
  | .error cause => answer = .error cause ∧ left = s
  | .ok (written, store) => answer = .ok written.version ∧ left = { s with store }

/-- The protocol of a pass that fetches on the first of these sites, reads the clock of the second,
lists on the third and writes on the last. A fetch that fails or finds no target is the only call.
Otherwise the members are listed, and what follows from the listing is written over the target as it
was fetched, unless that carries it already; so it is also when the listing fails. -/
def Conduct (name : String) (a b c d : Site) (calls : List (Call × Site)) : Prop :=
  match a.store.get name with
  | .error cause => calls = [(.get name (.error cause), a)]
  | .ok none => calls = [(.get name (.ok none), a)]
  | .ok (some t) => ∃ desired answer left,
      desired.contents = c.list.contents ∧
      (∀ text, c.list = .error text →
        desired.contents = ⟨⟨.yes, "", ""⟩, ⟨.no, "", ""⟩, ⟨.no, "", ""⟩⟩) ∧
      Dated t.status b.clock desired ∧ Overwrites d t desired answer left ∧
      calls =
        (.get name (.ok (some t.version)), a) :: (.list (c.list.toOption.map List.length), c) ::
          if t.status = some desired then [] else [(.patch t.name t.version answer, left)]

section

variable {name : String} {a b c d : Site} {t : Target} {now : Instant} {sites : List Site}

/-! ### Single steps -/

theorem through_finished (r : PassResult) (sites : List Site) :
    (finished r).through sites = (finished r, []) := by
  cases sites <;> rfl

theorem through_fetching (name : String) (a : Site) (sites : List Site) :
    (fetching name).through (a :: sites) =
      (((fetched (a.store.get name)).through sites).1,
        (.get name ((a.store.get name).map (·.map Target.version)), a) ::
          ((fetched (a.store.get name)).through sites).2) :=
  rfl

theorem through_timing (t : Target) (b : Site) (sites : List Site) :
    (timing t).through (b :: sites) = (listing t b.clock).through sites :=
  rfl

theorem through_listing (t : Target) (now : Instant) (c : Site) (sites : List Site) :
    (listing t now).through (c :: sites) =
      (((listed t now c.list).through sites).1,
        (.list (c.list.toOption.map List.length), c) :: ((listed t now c.list).through sites).2) :=
  rfl

/-- What a write over a fetched target answers, leaves behind and is noted down as. -/
theorem overwrites_patch (s : Site) (t : Target) (desired : Composite) :
    ∃ answer left, Overwrites s t desired answer left ∧ s.patch t desired =
      (answer.map fun _ => (), left, .patch t.name t.version answer) := by
  unfold Overwrites Site.patch
  cases s.store.patch t desired with
  | error cause => exact ⟨_, _, ⟨rfl, rfl⟩, rfl⟩
  | ok written => exact ⟨_, _, ⟨rfl, rfl⟩, rfl⟩

/-- A write has its answer whatever comes of it. -/
theorem through_writing (t : Target) (desired : Composite) (r : PassResult) (d : Site)
    (sites : List Site) : ∃ answer left, Overwrites d t desired answer left ∧
      (writing t desired r).through (d :: sites) =
        (.finished r, [(.patch t.name t.version answer, left)]) := by
  obtain ⟨answer, left, overwrites, patched⟩ := overwrites_patch d t desired
  have step : (writing t desired r).through (d :: sites) =
      (.finished r, [((d.patch t desired).2.2, (d.patch t desired).2.1)]) := by
    show (((finished r).through sites).1, _ :: ((finished r).through sites).2) = _
    rw [through_finished]
    rfl
  rw [patched] at step
  exact ⟨answer, left, overwrites, step⟩

/-! ### From the listing on -/

/-- A pass that lists its members writes what follows, unless the target as fetched carries it. -/
theorem through_listed (t : Target) (now : Instant) (l : Listing) (d : Site) (sites : List Site) :
    ∃ answer left, Overwrites d t (l.composite t.status now) answer left ∧
      (listed t now l).through (d :: sites) = (.finished l.answer,
        if t.status = some (l.composite t.status now) then []
        else [(.patch t.name t.version answer, left)]) := by
  obtain ⟨answer, left, overwrites, wrote⟩ :=
    through_writing t (l.composite t.status now) l.answer d sites
  refine ⟨answer, left, overwrites, ?_⟩
  rw [listed_eq]
  by_cases same : t.status = some (l.composite t.status now)
  · rw [if_pos (Target.carries_iff.2 same), if_pos same, through_finished]
  · rw [if_neg (mt Target.carries_iff.1 same), if_neg same, wrote]

end

end Pass

/-- On whatever four sites a pass takes its steps, it comes to the answer that the fetch and the
listing settle, and has kept to its protocol. -/
theorem pass_keeps_protocol (name : String) (a b c d : Site) (later : List Site) :
    ((Pass.fetching name).through (a :: b :: c :: d :: later)).1 =
        .finished (Pass.settled (a.store.get name) c.list) ∧
      Pass.Conduct name a b c d
        ((Pass.fetching name).through (a :: b :: c :: d :: later)).2 := by
  rw [Pass.through_fetching, Pass.Conduct]
  cases a.store.get name with
  | error cause =>
    have ended : Pass.fetched (.error cause) = .finished (.error (.store cause)) := rfl
    rw [ended, Pass.through_finished]
    exact ⟨rfl, rfl⟩
  | ok found =>
    cases found with
    | none =>
      have ended : Pass.fetched (.ok none) = .finished (.ok none) := rfl
      rw [ended, Pass.through_finished]
      exact ⟨rfl, rfl⟩
    | some t =>
      have going : Pass.fetched (.ok (some t)) = .timing t := rfl
      obtain ⟨answer, left, overwrites, listed⟩ :=
        Pass.through_listed t b.clock c.list d later
      rw [going, Pass.through_timing, Pass.through_listing, listed]
      have said := c.list.contents_composite t.status b.clock
      refine ⟨rfl, c.list.composite t.status b.clock, answer, left, said, ?_,
        c.list.dated_composite t.status b.clock, overwrites, rfl⟩
      rintro text failed
      rw [said, failed]
      rfl

/-- A pass whose listing fails, and whose target is written by others before it gets to write: the
write is tried all the same, over the version that was fetched, and its refusal changes nothing. -/
theorem pass_keeps_protocol_overtaken :
    let a : Site := .new (.single "agg") .empty
    let c : Site := { a with outage := some "offline" }
    let d : Site := { a with store := ⟨[⟨"agg", 5, none⟩], 5, false⟩ }
    (Pass.fetching "agg").through [a, a, c, d] = (.finished (.error (.members "offline")),
      [(.get "agg" (.ok (some 0)), a), (.list none, c),
        (.patch "agg" 0 (.error (.conflict "agg" 0 5)), d)]) := by
  intro a c d
  have there : a.store.find? "agg" = some (.new "agg") := by decide
  have found : a.store.get "agg" = .ok (some (.new "agg")) := by
    rw [Store.get_of_available rfl, there]
  have other : d.store.find? "agg" = some ⟨"agg", 5, none⟩ := by decide
  obtain ⟨answered, conduct⟩ := pass_keeps_protocol "agg" a a c d []
  rw [Pass.Conduct, found] at conduct
  obtain ⟨desired, answer, left, -, -, -, overwrites, calls⟩ := conduct
  have stale : (⟨"agg", 5, none⟩ : Target).version ≠ (Target.new "agg").version := by decide
  have refused : d.store.patch (.new "agg") desired = .error (.conflict "agg" 0 5) :=
    Store.patch_of_version_ne rfl other stale
  rw [Pass.Overwrites, refused] at overwrites
  obtain ⟨rfl, rfl⟩ := overwrites
  rw [found] at answered
  exact Prod.ext answered calls

end FleetHealth

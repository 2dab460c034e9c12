import FleetHealth.Site

/-!
A pass: one look at the fleet, written to the target.

A pass fetches the target, reads the clock, lists the members and writes the composite status that
follows, unless the target as fetched already carries it. Each of these is a step of its own, taken
by `Pass.step` on whatever the site has become, so any number of passes can be interleaved with each
other and with changes of the site. What a pass answers is settled by what it fetched and listed;
a write that is refused is left to a later pass.
-/

namespace FleetHealth

open FleetHealth.Time (Instant)

/-- Why a pass has no verdict. -/
inductive PassError
  | members (text : String)
  | store (cause : Store.Error)
  deriving DecidableEq, Repr

/-- The wording of an error. -/
def PassError.message : PassError → String
  | members text => "Member source error: " ++ text
  | store cause => "Status store error: " ++ cause.message

/-- The answer of a pass: a verdict, none when there is no target, or an error. -/
abbrev PassResult := Except PassError (Option Verdict)

/-- A pass, by the step that it takes next. -/
inductive Pass
  | fetching (name : String)
  | timing (fetched : Target)
  | listing (fetched : Target) (now : Instant)
  | writing (fetched : Target) (desired : Composite) (result : PassResult)
  | finished (result : PassResult)

/-- A call that a pass or a writer made, and what was answered: the version found, the number of
members, or the new version. -/
inductive Call
  | get (name : String) (found : Except Store.Error (Option UInt64))
  | list (count : Option Nat)
  | patch (name : String) (base : UInt64) (written : Except Store.Error UInt64)

/-- The kinds of call. -/
inductive CallKind
  | get
  | list
  | patch
  deriving DecidableEq, Repr

/-- Writes a status over a fetched target, whatever it carries. -/
def Site.patch (s : Site) (fetched : Target) (desired : Composite) :
    Except Store.Error Unit × Site × Call :=
  match s.store.patch fetched desired with
  | .error e => (.error e, s, .patch fetched.name fetched.version (.error e))
  | .ok (t, store) =>
    (.ok (), { s with store }, .patch fetched.name fetched.version (.ok t.version))

namespace Pass

/-- The pass once the store has answered. -/
def fetched (answer : Except Store.Error (Option Target)) : Pass :=
  match answer with
  | .error e => .finished (.error (.store e))
  | .ok none => .finished (.ok none)
  | .ok (some t) => .timing t

/-- The pass once the listing has been answered. -/
def listed (fetched : Target) (now : Instant) (answer : Listing) : Pass :=
  let assessment := Assessment.ofListing answer
  let desired := assessment.composite fetched.status now
  let result := match assessment.verdict with
    | .error text => .error (.members text)
    | .ok v => .ok (some v)
  if fetched.carries desired then .finished result else .writing fetched desired result

/-- The answer of a pass that has taken all its steps. -/
def result? : Pass → Option PassResult
  | finished r => some r
  | _ => none

/-- The kind of call that the next step makes, if it makes one. -/
def due : Pass → Option CallKind
  | fetching _ => some .get
  | listing .. => some .list
  | writing .. => some .patch
  | timing _ | finished _ => none

/-- Takes the next step, with the call that it makes. -/
def step (p : Pass) (s : Site) : Pass × Site × Option Call :=
  match p with
  | fetching name =>
    let answer := s.store.get name
    (fetched answer, s, some (.get name (answer.map (·.map Target.version))))
  | timing t => (.listing t s.clock, s, none)
  | listing t now =>
    let answer := s.list
    (listed t now answer, s, some (.list (answer.toOption.map List.length)))
  | writing t desired result =>
    let (_, s', call) := s.patch t desired
    (.finished result, s', some call)
  | finished result => (.finished result, s, none)

/-- An upper bound of the steps that are left. -/
def stepsLeft : Pass → Nat
  | fetching _ => 4
  | timing _ => 3
  | listing .. => 2
  | writing .. => 1
  | finished _ => 0

theorem stepsLeft_step {p : Pass} {s : Site} (h : p.result? = none) :
    (p.step s).1.stepsLeft < p.stepsLeft := by
  cases p with
  | finished r => simp [result?] at h
  | timing t => simp [step, stepsLeft]
  | writing t d r => simp [step, stepsLeft]
  | fetching name =>
    simp only [step, fetched]
    split <;> simp [stepsLeft]
  | listing t now =>
    simp only [step, listed]
    split <;> simp [stepsLeft]

/-- Takes all steps without interruption. -/
def run (p : Pass) (s : Site) : PassResult × Site :=
  match h : p.result? with
  | some r => (r, s)
  | none =>
    have := stepsLeft_step (s := s) h
    (p.step s).1.run (p.step s).2.1
termination_by p.stepsLeft

theorem run_finished (r : PassResult) (s : Site) : (finished r).run s = (r, s) := by
  rw [run]; rfl

theorem run_of_result?_eq_none {p : Pass} (h : p.result? = none) (s : Site) :
    p.run s = (p.step s).1.run (p.step s).2.1 := by
  rw [run]
  split
  · next h' => rw [h] at h'; cases h'
  · rfl

end Pass

/-- One pass without interruption. -/
def Site.pass (s : Site) (name : String) : PassResult × Site :=
  (Pass.fetching name).run s

end FleetHealth

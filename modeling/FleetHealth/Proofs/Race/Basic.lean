import FleetHealth.Proofs.Pass.Undisturbed

/-!
Races: passes over one target, interleaved call by call.

A race has a site and any number of passes, which take their steps in any order; between two steps
the fleet, the listing, the store and the clock may change, and others may write targets. `Race.step`
does one thing and notes down what took effect on the store (`Deed`).

Events are not restricted by `Race.step`; what a statement takes for granted of a run, it says with
`Race.Along`.
-/

namespace FleetHealth

open FleetHealth.Time (Instant)

/-- A pass in a race, with what it has seen so far: the time that it read, and the answer to its
listing. -/
structure Racer where
  pass : Pass
  read : Option Instant
  heard : Option Listing

/-- A change of the store that took effect. -/
inductive Deed
  /-- A pass wrote a status, after this answer to its listing and this reading of the clock. -/
  | pass (answer : Listing) (now : Instant) (written : Composite)
  | patch (base : Target) (status : Composite)
  | insert (t : Target)

/-- The name of the one target, the site, the passes, and the deeds so far, oldest first. -/
structure Race where
  name : String
  site : Site
  racers : List Racer
  deeds : List Deed

/-- The instant so many seconds after the first one of 1970, within its minute. -/
def Time.Instant.early (seconds : Nat) : Instant :=
  ⟨0, seconds % 60, 0,
    ⟨by decide, by decide, by omega, by decide, fun leap => absurd leap (by decide)⟩⟩

/-- A site with one target that has no status yet, and no members. -/
def quietSite : Site := .new (.single "agg") .empty

namespace Racer

/-- A pass that begins. -/
def new (name : String) : Racer := ⟨.fetching name, none, none⟩

/-- The racer after its next step, taken on the site as it is. -/
def next (x : Racer) (s : Site) : Racer where
  pass := (x.pass.step s).1
  read := match x.pass with
    | .timing _ => some s.clock
    | _ => x.read
  heard := match x.pass with
    | .listing .. => some s.list
    | _ => x.heard

/-- What takes effect with the next step: a write, if it succeeds. -/
def deed? (x : Racer) (s : Site) : Option Deed :=
  match x.pass, x.heard, x.read with
  | .writing fetched desired _, some answer, some now =>
    match s.store.patch fetched desired with
    | .ok _ => some (.pass answer now desired)
    | .error _ => none
  | _, _, _ => none

end Racer

namespace Race

/-- A race before anything has happened. -/
def new (name : String) (s : Site) : Race := ⟨name, s, [], []⟩

/-- One thing that can happen. -/
inductive Event
  /-- A pass begins. -/
  | enter
  /-- A pass takes its next step. -/
  | move (i : Nat)
  | fleet (roster : Roster)
  | outage (text : Option String)
  | unavailable (value : Bool)
  | clock (now : Instant)
  | patch (base : Target) (status : Composite)
  | insert (t : Target)

/-- The race after one thing has happened. -/
def step (r : Race) : Event → Race
  | .enter => { r with racers := r.racers ++ [.new r.name] }
  | .move i =>
    match r.racers[i]? with
    | none => r
    | some x =>
      { r with
        site := (x.pass.step r.site).2.1
        racers := r.racers.set i (x.next r.site)
        deeds := r.deeds ++ (x.deed? r.site).toList }
  | .fleet roster => { r with site.roster := roster }
  | .outage text => { r with site.outage := text }
  | .unavailable value => { r with site.store.unavailable := value }
  | .clock now => { r with site.clock := now }
  | .patch base status =>
    match r.site.store.patch base status with
    | .error _ => r
    | .ok (_, store) => { r with site.store := store, deeds := r.deeds ++ [.patch base status] }
  | .insert t => { r with site.store := r.site.store.insert t, deeds := r.deeds ++ [.insert t] }

/-- The race after all of this has happened. -/
def run (r : Race) (es : List Event) : Race := es.foldl step r

/-- Something holds at each point of a run, of the race there and of what happens next. -/
def Along (P : Race → Event → Prop) (r : Race) : List Event → Prop
  | [] => True
  | e :: es => P r e ∧ (r.step e).Along P es

instance instDecidableAlong (P : Race → Event → Prop) [∀ r e, Decidable (P r e)] (r : Race) :
    (es : List Event) → Decidable (r.Along P es)
  | [] => inferInstanceAs (Decidable True)
  | e :: es => @instDecidableAnd _ _ _ (instDecidableAlong P (r.step e) es)

/-- The event leaves the target as it is, unless the version of the target can still be raised. -/
def HasRoom (r : Race) (e : Event) : Prop :=
  (r.step e).site.store.find? r.name = r.site.store.find? r.name ∨
    ∀ u ∈ r.site.store.find? r.name, u.version.toNat + 1 < UInt64.size

/-- The target is not put back: a target that is put in its place has a greater version. -/
def Renews (r : Race) : Event → Prop
  | .insert t => t.name = r.name → ∀ u ∈ r.site.store.find? r.name, u.version < t.version
  | _ => True

/-- What is taken for granted of each event. -/
def Lawful (r : Race) (e : Event) : Prop := r.HasRoom e ∧ r.Renews e

/-- Pass number `i` makes a call of this kind with its next step. -/
def Due (r : Race) (i : Nat) (kind : CallKind) : Prop :=
  r.racers[i]?.bind (fun x => x.pass.due) = some kind

instance (r : Race) (i : Nat) (kind : CallKind) : Decidable (r.Due i kind) :=
  inferInstanceAs (Decidable (_ = some kind))

instance (r : Race) (e : Event) : Decidable (r.HasRoom e) :=
  inferInstanceAs (Decidable (_ ∨ _))

instance (r : Race) : (e : Event) → Decidable (r.Renews e)
  | .insert t =>
    inferInstanceAs (Decidable (t.name = r.name → ∀ u ∈ r.site.store.find? r.name,
      u.version < t.version))
  | .enter | .move _ | .fleet _ | .outage _ | .unavailable _ | .clock _ | .patch _ _ =>
    inferInstanceAs (Decidable True)

instance (r : Race) (e : Event) : Decidable (r.Lawful e) :=
  inferInstanceAs (Decidable (_ ∧ _))

/-! ### Runs -/

@[simp] theorem run_nil (r : Race) : r.run [] = r := rfl

@[simp] theorem run_cons (r : Race) (e : Event) (es : List Event) :
    r.run (e :: es) = (r.step e).run es := rfl

theorem run_append (r : Race) (es fs : List Event) : r.run (es ++ fs) = (r.run es).run fs :=
  List.foldl_append

/-- What each step keeps, a run keeps. -/
theorem run_induction {P : Race → Event → Prop} {Q : Race → Prop}
    (step : ∀ r e, P r e → Q r → Q (r.step e)) {r : Race} {es : List Event} (along : r.Along P es)
    (start : Q r) : Q (r.run es) := by
  induction es generalizing r with
  | nil => exact start
  | cons e es ih => exact ih along.2 (step r e along.1 start)

theorem along_append {P : Race → Event → Prop} {r : Race} {es fs : List Event} :
    r.Along P (es ++ fs) ↔ r.Along P es ∧ (r.run es).Along P fs := by
  induction es generalizing r with
  | nil => simp [Along]
  | cons e es ih => simp [Along, ih, and_assoc]

@[simp] theorem name_step (r : Race) (e : Event) : (r.step e).name = r.name := by
  cases e <;> simp only [step] <;> split <;> rfl

@[simp] theorem name_run (r : Race) (es : List Event) : (r.run es).name = r.name := by
  induction es generalizing r with
  | nil => rfl
  | cons e es ih => rw [run_cons, ih, name_step]

end Race

end FleetHealth

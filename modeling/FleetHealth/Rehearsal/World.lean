import FleetHealth.Rehearsal.Script

/-!
The world of a rehearsal: a site, a service, and the hooks that wait for calls.

`World.act` does what a step does at once. A pass or a write is not done at once, since hooks may
come between its calls; for these the answer is a `Frame`, an activity that has begun.
-/

namespace FleetHealth.Rehearsal

/-- Everything that steps act on. Hooks wait in the order in which they were laid; notes are kept
with the latest first. -/
structure World where
  site : Site
  service : Service
  hooks : List (CallKind × List Step)
  notes : List Note

/-- An activity that has begun. One that is `ready` has had the hook of the call that it is to make
next. -/
inductive Frame
  /-- A hook, with the steps still to do and the results so far, the latest first. -/
  | hook (kind : CallKind) (todo : List Step) (results : List Result)
  /-- A pass that a step called for. -/
  | pass (p : Pass) (ready : Bool)
  /-- A write that a step called for. -/
  | write (fetched : Target) (desired : Composite) (ready : Bool)
  /-- The pass that the loop of the service is at. -/
  | serve (ready : Bool)

/-- Takes the first hook that waits for a kind of call. -/
def takeHook (kind : CallKind) :
    List (CallKind × List Step) → Option (List Step) × List (CallKind × List Step)
  | [] => (none, [])
  | (k, steps) :: hooks =>
    if k = kind then (some steps, hooks)
    else
      let (found, rest) := takeHook kind hooks
      (found, (k, steps) :: rest)

namespace World

/-- Notes something down. -/
def note (w : World) (n : Note) : World :=
  { w with notes := n :: w.notes }

/-- Notes down the call of a step of a pass, if it made one. -/
def noteCall (w : World) (c : Option Call) : World :=
  match c with
  | some c => w.note (.call c)
  | none => w

/-- Does what a step does, with its result, or begins the activity that will have one. -/
def act (w : World) : Step → World × (Result ⊕ Frame)
  | .upsert m => ({ w with site.roster := w.site.roster.upsert m }, .inl .done)
  | .remove name =>
    match w.site.roster.remove name with
    | .ok (m, roster) => ({ w with site.roster := roster }, .inl (.removed (.ok m)))
    | .error e => (w, .inl (.removed (.error e)))
  | .list => (w, .inl (.members w.site.roster.members))
  | .failList text => ({ w with site.outage := text }, .inl .done)
  | .insert t => ({ w with site.store := w.site.store.insert t }, .inl .done)
  | .get name => (w, .inl (.fetched (w.site.store.get name)))
  | .patch base status =>
    match w.site.store.patch base status with
    | .ok (t, store) => ({ w with site.store := store }, .inl (.patched (.ok t)))
    | .error e => (w, .inl (.patched (.error e)))
  | .unavailable value => ({ w with site.store.unavailable := value }, .inl .done)
  | .clock now => ({ w with site.clock := now }, .inl .done)
  | .pass => (w, .inr (.pass (.fetching w.service.config.target) false))
  | .write fetched desired =>
    if fetched.carries desired then (w, .inl (.wrote (.ok .unchanged)))
    else (w, .inr (.write fetched desired false))
  | .onNext kind steps => ({ w with hooks := w.hooks ++ [(kind, steps)] }, .inl .done)
  | .start =>
    match w.service.start with
    | .ok service => ({ w with service }, .inl (.started (.ok ())))
    | .error e => (w, .inl (.started (.error e)))
  | .shutdown => ({ w with service := w.service.shutdown }, .inl .done)
  | .send ts =>
    let (answers, service) := w.service.offerAll ts
    ({ w with service }, .inl (.offers answers))
  | .drop => ({ w with service := w.service.drop }, .inl .done)

/-- Takes a step of a pass and notes down its call. -/
def stepPass (w : World) (p : Pass) : World × Pass :=
  let (p', site, call) := p.step w.site
  (noteCall { w with site } call, p')

/-- Moves a pass on: takes its next step or, if a hook waits for the call that is due, begins the
hook. The hook of a fetch comes after the call, all others come before it. Answers the pass, whether
it is ready, and the hook. -/
def movePass (w : World) (p : Pass) (ready : Bool) : World × Pass × Bool × Option Frame :=
  match p.due, ready with
  | some .get, _ =>
    let (found, hooks) := takeHook .get w.hooks
    let (w', p') := stepPass { w with hooks } p
    (w', p', false, found.map fun steps => .hook .get steps [])
  | some kind, false =>
    match takeHook kind w.hooks with
    | (some steps, hooks) => ({ w with hooks }, p, true, some (.hook kind steps []))
    | (none, _) =>
      let (w', p') := w.stepPass p
      (w', p', false, none)
  | _, _ =>
    let (w', p') := w.stepPass p
    (w', p', false, none)

/-- Moves a write on: makes its call or, if a hook waits for it, begins the hook. -/
def moveWrite (w : World) (fetched : Target) (desired : Composite) (ready : Bool) :
    World × (Result ⊕ Frame) :=
  match ready, takeHook .patch w.hooks with
  | false, (some steps, hooks) => ({ w with hooks }, .inr (.hook .patch steps []))
  | _, _ =>
    let (answer, site, call) := w.site.patch fetched desired
    (note { w with site } (.call call), .inl (.wrote (answer.map fun _ => .written)))

end World

/-! ### Weights -/

/-- The weight of a frame, apart from the pass that the service is at. -/
def Frame.weight : Frame → Nat
  | .hook _ todo _ => stepsWeight todo + 1
  | .pass p ready => passWeight p.stepsLeft + (if ready then 0 else 1) + 1
  | .write _ _ ready => (if ready then 0 else 1) + 1
  | .serve ready => (if ready then 0 else 1) + 1

theorem Frame.weight_pass (p : Pass) (ready : Bool) :
    (Frame.pass p ready).weight = passWeight p.stepsLeft + (if ready then 0 else 1) + 1 := rfl

theorem Frame.weight_write (fetched : Target) (desired : Composite) (ready : Bool) :
    (Frame.write fetched desired ready).weight = (if ready then 0 else 1) + 1 := rfl

theorem Frame.weight_serve (ready : Bool) :
    (Frame.serve ready).weight = (if ready then 0 else 1) + 1 := rfl

/-- The weight of the hooks that wait. -/
def hooksWeight : List (CallKind × List Step) → Nat
  | [] => 0
  | (_, steps) :: hooks => stepsWeight steps + 1 + hooksWeight hooks

/-- The weight of the triggers that wait and of the pass that the service is at. -/
def serviceWeight (s : Service) : Nat :=
  triggerWeight * s.queue.length + (match s.pass with
    | some p => passWeight p.stepsLeft
    | none => 0)

/-- The weight of all that waits. -/
def World.weight (w : World) : Nat :=
  hooksWeight w.hooks + serviceWeight w.service

/-- The weight of a hook that may have been taken. -/
def hookWeight : Option (List Step) → Nat
  | some steps => stepsWeight steps + 1
  | none => 0

theorem hooksWeight_append (hs ks : List (CallKind × List Step)) :
    hooksWeight (hs ++ ks) = hooksWeight hs + hooksWeight ks := by
  induction hs with
  | nil => simp [hooksWeight]
  | cons h hs ih => simp only [List.cons_append, hooksWeight, ih]; omega

theorem hooksWeight_takeHook (kind : CallKind) (hs : List (CallKind × List Step)) :
    hooksWeight (takeHook kind hs).2 + hookWeight (takeHook kind hs).1 = hooksWeight hs := by
  induction hs with
  | nil => rfl
  | cons h hs ih =>
    simp only [takeHook]
    split
    · simp only [hooksWeight, hookWeight]; omega
    · simp only [hooksWeight]; omega

theorem serviceWeight_offer (s : Service) (t : Trigger) :
    serviceWeight (s.offer t).2 ≤ serviceWeight s + triggerWeight := by
  unfold Service.offer
  split
  · simp
  all_goals split <;> simp [serviceWeight, Nat.mul_add]; omega

theorem serviceWeight_offerAll (s : Service) (ts : List Trigger) :
    serviceWeight (s.offerAll ts).2 ≤ serviceWeight s + triggerWeight * ts.length := by
  induction ts generalizing s with
  | nil => simp [Service.offerAll]
  | cons t ts ih =>
    have h := serviceWeight_offer s t
    have := ih (s.offer t).2
    simp only [Service.offerAll, List.length_cons, Nat.mul_add]
    omega

end FleetHealth.Rehearsal

import FleetHealth.Rehearsal.World

/-!
Rehearsals: scripts run to their end.

A `Machine` is a world with the frames of the activities that have begun, the innermost first. It
makes one move at a time; between steps of a script it lets the service's loop run until it waits.
Every move makes the machine lighter (`weight_next`), so `Machine.settle` ends.
-/

namespace FleetHealth.Rehearsal

/-- A world and the activities that have begun, the innermost first; `result` is that of the
outermost, once there is one. -/
structure Machine where
  world : World
  frames : List Frame
  result : Option Result

namespace Machine

/-- Hands a result to the hook that waits for it, if there is one. -/
def deliver (m : Machine) (r : Result) : Machine :=
  match m.frames with
  | .hook kind todo results :: frames =>
    { m with frames := .hook kind todo (r :: results) :: frames }
  | _ => { m with result := some r }

/-- Goes on with a world and either a result or an activity. -/
def proceed (m : Machine) (next : World × (Result ⊕ Frame)) : Machine :=
  match next with
  | (w, .inl r) => { m with world := w }.deliver r
  | (w, .inr f) => { m with world := w, frames := f :: m.frames }

/-- Begins with a step. -/
def begin (w : World) (s : Step) : Machine :=
  (⟨w, [], none⟩ : Machine).proceed (w.act s)

/-- Makes one move; there is none when nothing has begun and the service's loop waits. -/
def next : Machine → Option Machine
  | ⟨w, [], result⟩ =>
    if w.service.canWake then
      some ⟨{ w with service := w.service.wake }, [.serve false], result⟩
    else none
  | ⟨w, .hook kind [] results :: frames, result⟩ =>
    some ⟨w.note (.hook kind results.reverse), frames, result⟩
  | ⟨w, .hook kind (s :: todo) results :: frames, result⟩ =>
    some (proceed ⟨w, .hook kind todo results :: frames, result⟩ (w.act s))
  | ⟨w, .pass p ready :: frames, result⟩ =>
    match p.result? with
    | some r => some (deliver ⟨w, frames, result⟩ (.passed r))
    | none =>
      let (w', p', ready', hook) := w.movePass p ready
      some ⟨w', hook.toList ++ .pass p' ready' :: frames, result⟩
  | ⟨w, .write fetched desired ready :: frames, result⟩ =>
    match w.moveWrite fetched desired ready with
    | (w', .inl r) => some (deliver ⟨w', frames, result⟩ r)
    | (w', .inr hook) => some ⟨w', hook :: .write fetched desired true :: frames, result⟩
  | ⟨w, .serve ready :: frames, result⟩ =>
    match w.service.pass with
    | none => some ⟨w, frames, result⟩
    | some p =>
      match p.result? with
      | some _ => some ⟨{ w with service.pass := none }, frames, result⟩
      | none =>
        let (w', p', ready', hook) := w.movePass p ready
        let frames := hook.toList ++ .serve ready' :: frames
        some ⟨{ w' with service.pass := some p' }, frames, result⟩

/-! ### Every move makes the machine lighter -/

/-- The weight of the frames. -/
def framesWeight : List Frame → Nat
  | [] => 0
  | f :: fs => f.weight + framesWeight fs

theorem framesWeight_append (fs gs : List Frame) :
    framesWeight (fs ++ gs) = framesWeight fs + framesWeight gs := by
  induction fs with
  | nil => simp [framesWeight]
  | cons f fs ih => simp only [List.cons_append, framesWeight, ih]; omega

/-- The weight of a machine. -/
def weight (m : Machine) : Nat :=
  m.world.weight + framesWeight m.frames

/-- The weight of what comes of a step or of a move. -/
def outcomeWeight : World × (Result ⊕ Frame) → Nat
  | (w, .inl _) => w.weight
  | (w, .inr f) => w.weight + f.weight

theorem weight_deliver (m : Machine) (r : Result) : (m.deliver r).weight = m.weight := by
  unfold deliver
  split
  · next h => simp [weight, h, framesWeight, Frame.weight]
  · rfl

theorem weight_proceed (m : Machine) (next : World × (Result ⊕ Frame)) :
    (m.proceed next).weight = outcomeWeight next + framesWeight m.frames := by
  obtain ⟨w, r | f⟩ := next
  · rw [proceed, weight_deliver]; rfl
  · simp only [proceed, weight, outcomeWeight, framesWeight]; omega

theorem outcomeWeight_act (w : World) (s : Step) :
    outcomeWeight (w.act s) < w.weight + s.weight := by
  cases s with
  | upsert | list | failList | insert | get | unavailable | clock =>
    simp [World.act, outcomeWeight, World.weight, Step.weight]
  | remove name =>
    simp only [World.act]
    split <;> simp [outcomeWeight, World.weight, Step.weight]
  | patch base status =>
    simp only [World.act]
    split <;> simp [outcomeWeight, World.weight, Step.weight]
  | pass =>
    simp [World.act, outcomeWeight, Step.weight, Frame.weight, passWeight, Pass.stepsLeft]
  | write fetched desired =>
    simp only [World.act]
    split <;> simp [outcomeWeight, Step.weight, Frame.weight]
  | onNext kind steps =>
    simp [World.act, outcomeWeight, World.weight, Step.weight, hooksWeight_append, hooksWeight]
    omega
  | start =>
    simp only [World.act]
    split
    · next service h =>
      have : serviceWeight service = serviceWeight w.service := by
        unfold Service.start at h
        split at h <;> cases h
        rfl
      simp [outcomeWeight, World.weight, Step.weight, this]
    · simp [outcomeWeight, Step.weight]
  | shutdown =>
    have : serviceWeight w.service.shutdown ≤ serviceWeight w.service := by
      unfold Service.shutdown
      split <;> simp [Service.close, serviceWeight]
    simp only [World.act, outcomeWeight, World.weight, Step.weight]
    omega
  | send ts =>
    have := serviceWeight_offerAll w.service ts
    simp only [World.act, outcomeWeight, World.weight, Step.weight]
    omega
  | drop =>
    have : serviceWeight w.service.drop ≤ serviceWeight w.service := by
      unfold Service.drop
      split <;> simp [Service.close, serviceWeight]
    simp only [World.act, outcomeWeight, World.weight, Step.weight]
    omega

theorem stepPass_hooks (w : World) (p : Pass) : (w.stepPass p).1.hooks = w.hooks := by
  simp only [World.stepPass, World.noteCall]
  split <;> rfl

theorem stepPass_service (w : World) (p : Pass) : (w.stepPass p).1.service = w.service := by
  simp only [World.stepPass, World.noteCall]
  split <;> rfl

theorem movePass_service (w : World) (p : Pass) (ready : Bool) :
    (w.movePass p ready).1.service = w.service := by
  simp only [World.movePass]
  split
  · exact stepPass_service _ p
  · split
    · rfl
    · exact stepPass_service w p
  · exact stepPass_service w p

/-- The weight of what comes of moving a pass on, apart from the service. -/
def movedWeight : World × Pass × Bool × Option Frame → Nat
  | (w, p, ready, hook) =>
    hooksWeight w.hooks + 2 * p.stepsLeft + (if ready then 0 else 1) + framesWeight hook.toList

theorem movedWeight_movePass (w : World) {p : Pass} (ready : Bool) (h : p.result? = none) :
    movedWeight (w.movePass p ready) <
      hooksWeight w.hooks + 2 * p.stepsLeft + (if ready then 0 else 1) := by
  have step (w : World) : (w.stepPass p).2.stepsLeft < p.stepsLeft := Pass.stepsLeft_step h
  unfold World.movePass
  split
  · have hook := hooksWeight_takeHook .get w.hooks
    have := step { w with hooks := (takeHook .get w.hooks).2 }
    have hooks := stepPass_hooks { w with hooks := (takeHook .get w.hooks).2 } p
    simp only [movedWeight, hooks]
    cases hs : (takeHook .get w.hooks).1 with
    | none =>
      simp only [hs, hookWeight] at hook
      simp [framesWeight]
      split <;> omega
    | some steps =>
      simp only [hs, hookWeight] at hook
      simp [framesWeight, Frame.weight]
      split <;> omega
  · next kind _ _ =>
    have hook := hooksWeight_takeHook kind w.hooks
    split
    · next steps hooks hs =>
      simp only [hs, hookWeight] at hook
      simp [movedWeight, framesWeight, Frame.weight]
      omega
    · have := step w
      simp [movedWeight, stepPass_hooks, framesWeight]
      omega
  · have := step w
    simp [movedWeight, stepPass_hooks, framesWeight]
    split <;> omega

theorem outcomeWeight_moveWrite (w : World) (fetched : Target) (desired : Composite)
    (ready : Bool) : outcomeWeight (w.moveWrite fetched desired ready) = w.weight := by
  unfold World.moveWrite
  have hook := hooksWeight_takeHook .patch w.hooks
  split
  · next steps hooks hs =>
    simp only [hs, hookWeight] at hook
    simp [outcomeWeight, World.weight, Frame.weight]
    omega
  · rfl

theorem ready_of_moveWrite {w w' : World} {fetched : Target} {desired : Composite} {ready : Bool}
    {f : Frame} (h : w.moveWrite fetched desired ready = (w', .inr f)) : ready = false := by
  unfold World.moveWrite at h
  split at h
  · rfl
  · cases h

theorem weight_next {m m' : Machine} (h : m.next = some m') : m'.weight < m.weight := by
  unfold next at h
  split at h
  · next w result =>
    split at h
    · next hw =>
      cases h
      simp only [Service.canWake, Bool.and_eq_true, beq_iff_eq, Option.isNone_iff_eq_none,
        Bool.not_eq_true', List.isEmpty_eq_false_iff] at hw
      have := List.length_pos_iff.2 hw.2
      simp only [weight, framesWeight, World.weight, serviceWeight, Service.wake, Frame.weight,
        hw.1.2, triggerWeight, List.length_nil]
      split
      · next hp =>
        split at hp <;> cases hp
        simp only [passWeight, Pass.stepsLeft, Bool.false_eq_true, if_false]
        omega
      · simp only [Bool.false_eq_true, if_false]
        omega
    · cases h
  · cases h
    simp [weight, framesWeight, Frame.weight, World.note, World.weight, stepsWeight]
  · next w kind s todo results frames result =>
    cases h
    have := outcomeWeight_act w s
    rw [weight_proceed]
    simp only [weight, framesWeight, Frame.weight, stepsWeight]
    omega
  · next w p ready frames result =>
    split at h
    · cases h
      rw [weight_deliver]
      simp only [weight, framesWeight, Frame.weight]
      omega
    · next hp =>
      have lighter := movedWeight_movePass w ready hp
      have service := movePass_service w p ready
      rcases hm : w.movePass p ready with ⟨w', p', ready', hook⟩
      rw [hm] at h lighter service
      dsimp only at service
      cases h
      simp only [movedWeight] at lighter
      simp only [weight, framesWeight, framesWeight_append, World.weight, service,
        Frame.weight_pass, passWeight]
      omega
  · next w fetched desired ready frames result =>
    have hw := outcomeWeight_moveWrite w fetched desired ready
    split at h
    · next w' r hm =>
      cases h
      rw [weight_deliver]
      simp only [outcomeWeight, hm] at hw
      simp only [weight, framesWeight, Frame.weight, hw]
      omega
    · next w' f hm =>
      cases h
      have hr := ready_of_moveWrite hm
      simp only [outcomeWeight, hm] at hw
      simp only [weight, framesWeight, hr, Frame.weight_write, if_true,
        Bool.false_eq_true, if_false]
      omega
  · next w ready frames result =>
    split at h
    · cases h
      simp only [weight, framesWeight, Frame.weight]
      omega
    · next p hp =>
      split at h
      · cases h
        simp only [weight, framesWeight, Frame.weight, World.weight, serviceWeight, hp]
        omega
      · next hres =>
        have lighter := movedWeight_movePass w ready hres
        have service := movePass_service w p ready
        rcases hm : w.movePass p ready with ⟨w', p', ready', hook⟩
        rw [hm] at h lighter service
        dsimp only at service
        cases h
        simp only [movedWeight] at lighter
        simp only [weight, framesWeight, framesWeight_append, World.weight, serviceWeight, service,
          hp, passWeight, Frame.weight_serve]
        omega

/-- Makes moves until none is left. -/
def settle (m : Machine) : Machine :=
  match h : m.next with
  | none => m
  | some m' =>
    have := weight_next h
    m'.settle
termination_by m.weight

end Machine

/-! ### Scripts -/

/-- What is seen after a step of a script: its result, the notes taken meanwhile, and the state of
the store and the roster. -/
structure Observation where
  result : Result
  notes : List Note
  targets : List Target
  patchCount : Nat
  members : List String

/-- Takes one step of a script and lets everything come to rest. -/
def World.take (w : World) (s : Step) : World × Observation :=
  let m := (Machine.begin { w with notes := [] } s).settle
  let rested := { m.world with service := m.world.service.rest }
  (rested,
    { result := m.result.getD .done
      notes := rested.notes.reverse
      targets := rested.site.store.sortedTargets
      patchCount := rested.site.store.patchCount
      members := rested.site.roster.members.map Member.name })

/-- Runs a script. -/
def World.run (w : World) : List Step → List Observation
  | [] => []
  | s :: ss =>
    let (w', r) := w.take s
    r :: w'.run ss

/-- The world before a script: a store, a roster, and a service that has not been started. -/
def World.new (store : Store) (roster : Roster) (config : Config) : World :=
  ⟨.new store roster, .new config, [], []⟩

end FleetHealth.Rehearsal

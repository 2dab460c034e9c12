import FleetHealth.Proofs.Pass.Trace
import FleetHealth.Proofs.Service.Watch

/-!
No trigger is lost, served twice or made up.

The notes of a service that has not been stopped say all (`Watch.Faithful`): what was accepted is what
the loop took, batch by batch, and then what still waits; the loop does one thing after the other, a
whole pass for each batch that calls for one; and a trigger that calls for a pass has its place in a
batch whose fetch comes after it. How many turns of the loop that takes is counted by
`Watch.Heeded`, so that nothing is put off forever.
-/

namespace FleetHealth

namespace Watch

/-! ### Reading the notes -/

/-- The trigger that was accepted. -/
@[simp] def Note.trigger? : Note → Option Trigger
  | .accepted t => some t
  | _ => none

/-- The batch that was taken. -/
@[simp] def Note.batch? : Note → Option (List Trigger)
  | .took batch => some batch
  | _ => none

/-- The triggers that were accepted. -/
def accepted (notes : List Note) : List Trigger := notes.filterMap Note.trigger?

/-- The batches that the loop took. -/
def batches (notes : List Note) : List (List Trigger) := notes.filterMap Note.batch?

/-- Whether a note says what the loop did. -/
@[simp] def Note.ofLoop : Note → Bool
  | .accepted _ => false
  | _ => true

/-- Whether a note says that a pass began. -/
@[simp] def Note.isBegan : Note → Bool
  | .began => true
  | _ => false

/-- Whether an event is a turn of the loop. -/
def Event.isTurn : Event → Bool
  | .turn => true
  | _ => false

/-- Whether a batch calls for a pass. -/
def Calls (target : String) (batch : List Trigger) : Bool :=
  batch.any (Trigger.concerns target)

/-- All that the loop does about a batch. -/
inductive Round
  | ignored (batch : List Trigger)
  | served (batch : List Trigger) (calls : List Call) (answer : PassResult)

/-- What is noted down of a round. -/
def Round.notes : Round → List Note
  | .ignored batch => [.took batch]
  | .served batch calls answer =>
    .took batch :: .began :: (calls.map .called ++ [.answered answer])

/-- A batch is served by one whole pass if it calls for one, and ignored if it does not. -/
def Round.Sound (target : String) : Round → Prop
  | .ignored batch => Calls target batch = false
  | .served batch calls answer =>
    Calls target batch = true ∧ Pass.Trace target calls (.finished answer)

/-- What is noted down of the round that the loop is at: nothing, if it is at no pass. -/
def Underway (target : String) (notes : List Note) : Option Pass → Prop
  | none => notes = []
  | some p => ∃ batch calls, notes = .took batch :: .began :: calls.map .called ∧
      Calls target batch = true ∧ Pass.Trace target calls p

/-- How many turns the loop needs to be done with its pass. -/
def busy (w : Watch) : Nat :=
  match w.service.pass with
  | none => 0
  | some p => p.stepsLeft + 1

/-- What became of a trigger after its acceptance: it waits at its place in the queue, or it was
taken at its place in a batch and, if it calls for a pass, the target has been fetched since then or
is about to be. All of this is done within so many turns. -/
inductive Heeded (target : String) (w : Watch) (t : Trigger) (turns : Nat) (after : List Note) :
    Prop
  | waiting (ahead : List Trigger) (place : w.service.queue = ahead ++ t :: accepted after)
      (soon : w.busy + 2 ≤ turns)
  | taken (ahead : List Trigger) (mid rest : List Note)
      (place : after = mid ++ .took (ahead ++ t :: accepted mid) :: rest)
      (soon : t.concerns target = true → w.service.pass = some (.fetching target) ∧ 1 ≤ turns ∨
        ∃ found, .called (.get target found) ∈ rest)

/-- The notes tell the whole life of the service up to here. -/
structure Faithful (target : String) (w : Watch) : Prop where
  /-- Each accepted trigger was taken once, in its turn, or still waits. -/
  taken : accepted w.notes = (batches w.notes).flatten ++ w.service.queue
  nonempty : ∀ batch ∈ batches w.notes, batch ≠ []
  /-- The loop has done one round after the other, and may be at another. -/
  rounds : ∃ (rounds : List Round) (last : List Note), w.notes.filter Note.ofLoop = rounds.flatMap Round.notes ++ last ∧
      (∀ r ∈ rounds, r.Sound target) ∧ Underway target last w.service.pass
  /-- There was one pass for each batch that called for one. -/
  passes : w.notes.countP Note.isBegan = (batches w.notes).countP (Calls target)
  heeded : ∀ before t after, w.notes = before ++ .accepted t :: after → Heeded target w t 7 after

/-! ### Lists of notes -/

@[simp] theorem accepted_nil : accepted [] = [] := rfl

@[simp] theorem accepted_cons (n : Note) (ns : List Note) :
    accepted (n :: ns) = n.trigger?.toList ++ accepted ns := by
  cases n <;> rfl

@[simp] theorem accepted_append (ns ms : List Note) :
    accepted (ns ++ ms) = accepted ns ++ accepted ms :=
  List.filterMap_append

@[simp] theorem accepted_called (calls : List Call) : accepted (calls.map .called) = [] := by
  simp [accepted]

@[simp] theorem batches_nil : batches [] = [] := rfl

@[simp] theorem batches_cons (n : Note) (ns : List Note) :
    batches (n :: ns) = n.batch?.toList ++ batches ns := by
  cases n <;> rfl

@[simp] theorem batches_append (ns ms : List Note) :
    batches (ns ++ ms) = batches ns ++ batches ms :=
  List.filterMap_append

@[simp] theorem batches_called (calls : List Call) : batches (calls.map .called) = [] := by
  simp [batches]

theorem countP_called (calls : List Call) :
    (calls.map Note.called).countP Note.isBegan = 0 := by
  simp [List.countP_eq_zero]

theorem nonempty_of_calls {target : String} {batch : List Trigger} (h : Calls target batch = true) :
    batch ≠ [] := by
  rintro rfl
  cases h

/-- Batches that call for a pass are no more than the triggers in them that do. -/
theorem countP_calls_le (target : String) (bs : List (List Trigger)) :
    bs.countP (Calls target) ≤ bs.flatten.countP (Trigger.concerns target) := by
  induction bs with
  | nil => exact Nat.le_refl 0
  | cons b bs ih =>
    rw [List.flatten_cons, List.countP_append, List.countP_cons]
    split
    · next called =>
      have some_one : 0 < b.countP (Trigger.concerns target) := by
        rw [List.countP_pos_iff]
        exact List.any_eq_true.1 called
      omega
    · omega

/-- The place of an acceptance among notes that one more has been added to. -/
theorem split_concat {ns new before after : List Note} {t : Trigger}
    (h : ns ++ new = before ++ .accepted t :: after) :
    (∃ rest, ns = before ++ .accepted t :: rest ∧ after = rest ++ new) ∨
      ∃ mid, before = ns ++ mid ∧ new = mid ++ .accepted t :: after := by
  rcases List.append_eq_append_iff.1 h with ⟨mid, hb, hn⟩ | ⟨mid, hn, ha⟩
  · exact .inr ⟨mid, hb, hn⟩
  · cases mid with
    | nil => exact .inr ⟨[], by simpa using hn.symm, by simpa using ha.symm⟩
    | cons x rest =>
      obtain ⟨rfl, hr⟩ := List.cons.inj ha
      exact .inl ⟨rest, hn, hr⟩

/-! ### How a trigger is heeded -/

section

variable {target : String} {w w' : Watch} {e : Event} {t : Trigger} {k n : Nat} {after : List Note}

/-- It is enough that a fetch follows the batch. -/
theorem Heeded.fetched {ahead : List Trigger} {mid rest : List Note}
    {found : Except Store.Error (Option UInt64)} (call : .called (.get target found) ∈ rest) :
    Heeded target w t k (mid ++ .took (ahead ++ t :: accepted mid) :: rest) :=
  .taken ahead mid rest rfl fun _ => .inr ⟨found, call⟩

/-- A turn of a loop that runs brings the fetch nearer, and nothing else puts it off. -/
theorem Heeded.effect (h : Heeded target w t k after)
    (ht : w.service.config.target = target) (effect : Effect w e w')
    (alive : w'.service.lifecycle.Alive)
    (spent : n = 0 ∨ n = 1 ∧ e = .turn ∧ w.service.lifecycle = .running) :
    ∃ new, w'.notes = w.notes ++ new ∧ Heeded target w' t (k - n) (after ++ new) := by
  have hn : n ≤ 1 := by omega
  -- a trigger that was taken and does not wait for a fetch needs no more
  have past (new : List Note) {ahead : List Trigger} {mid rest : List Note}
      (soon : t.concerns target = true → w.service.pass = some (.fetching target) ∧ 1 ≤ k ∨
        ∃ found, .called (.get target found) ∈ rest)
      (elsewhere : w.service.pass ≠ some (.fetching target)) :
      Heeded target w' t (k - n)
        ((mid ++ .took (ahead ++ t :: accepted mid) :: rest) ++ new) := by
    rw [List.append_assoc, List.cons_append]
    refine .taken ahead mid (rest ++ new) rfl fun called => ?_
    obtain ⟨found, call⟩ := (soon called).resolve_left fun h => elsewhere h.1
    exact .inr ⟨found, List.mem_append_left new call⟩
  cases effect with
  | still lifecycle site _ _ waits =>
    refine ⟨[], (List.append_nil _).symm, ?_⟩
    rcases spent with rfl | ⟨rfl, turn, running⟩
    · rw [List.append_nil]
      cases h with
      | waiting ahead place soon => exact .waiting ahead place soon
      | taken ahead mid rest place soon => exact .taken ahead mid rest place soon
    · -- a loop that waits has nothing left to heed
      obtain ⟨idle, empty⟩ := waits turn running
      cases h with
      | waiting ahead place soon => simp [empty] at place
      | taken ahead mid rest place soon =>
        subst place
        exact past [] soon (by simp [idle])
  | lost => exact alive.elim
  | accept u offered =>
    obtain rfl : n = 0 := by
      rcases spent with h | ⟨-, turn, -⟩
      · exact h
      · rw [offered] at turn
        cases turn
    refine ⟨_, rfl, ?_⟩
    cases h with
    | waiting ahead place soon =>
      refine .waiting ahead ?_ soon
      simp [place, accepted]
    | taken ahead mid rest place soon =>
      refine .taken ahead mid (rest ++ [.accepted u]) (by simp [place]) ?_
      intro called
      exact (soon called).imp_right fun ⟨found, call⟩ => ⟨found, List.mem_append_left _ call⟩
  | ignore idle _ uncalled =>
    refine ⟨_, rfl, ?_⟩
    cases h with
    | waiting ahead place soon =>
      refine .taken ahead after [] (by rw [place]) fun called => ?_
      simp [place, ht, called] at uncalled
    | taken ahead mid rest place soon =>
      subst place
      exact past _ soon (by simp [idle])
  | begin idle _ =>
    refine ⟨_, rfl, ?_⟩
    cases h with
    | waiting ahead place soon =>
      exact .taken ahead after [.began] (by rw [place]) fun _ => .inl ⟨by rw [ht], by omega⟩
    | taken ahead mid rest place soon =>
      subst place
      exact past _ soon (by simp [idle])
  | move p active going =>
    refine ⟨_, rfl, ?_⟩
    cases h with
    | waiting ahead place soon =>
      refine .waiting ahead (by simp [place]) ?_
      have nearer := Pass.stepsLeft_step (s := w.site) going
      simp only [busy, active] at soon ⊢
      omega
    | taken ahead mid rest place soon =>
      subst place
      by_cases fetching : w.service.pass = some (.fetching target)
      · obtain rfl : p = .fetching target := Option.some.inj (active.symm.trans fetching)
        rw [List.append_assoc, List.cons_append]
        exact .fetched (List.mem_append_right rest (List.mem_cons_self ..))
      · exact past _ soon fetching
  | leave r active =>
    refine ⟨_, rfl, ?_⟩
    cases h with
    | waiting ahead place soon =>
      refine .waiting ahead (by simp [place, accepted]) ?_
      simp only [busy, active] at soon ⊢
      omega
    | taken ahead mid rest place soon =>
      subst place
      exact past _ soon (by simp [active])

theorem Heeded.run {es : List Event} (h : Heeded target w t k after)
    (ht : w.service.config.target = target) (spares : ∀ e ∈ es, e.Spares) (running : w.service.lifecycle = .running) :
    ∃ new, (w.run es).notes = w.notes ++ new ∧
      Heeded target (w.run es) t (k - es.countP Event.isTurn) (after ++ new) := by
  induction es generalizing w k after with
  | nil => exact ⟨[], (List.append_nil _).symm, by simpa using h⟩
  | cons e es ih =>
    obtain ⟨he, hes⟩ := List.forall_mem_cons.1 spares
    have effect := effect_step w e
    have goes_on := effect.running he running
    have spent : (if e.isTurn then 1 else 0) = 0 ∨
        (if e.isTurn then 1 else 0) = 1 ∧ e = .turn ∧ w.service.lifecycle = .running := by
      cases e with
      | turn => exact .inr ⟨rfl, rfl, running⟩
      | _ => exact .inl rfl
    obtain ⟨new, hn, h'⟩ := h.effect ht effect (by rw [goes_on]; trivial) spent
    obtain ⟨more, hm, h''⟩ := ih h' (effect.config ▸ ht) hes goes_on
    refine ⟨new ++ more, ?_, ?_⟩
    · rw [run_cons, hm, hn, List.append_assoc]
    · rw [List.append_assoc, Nat.sub_sub, Nat.add_comm, ← List.countP_cons] at h''
      exact h''

end

/-! ### What a step keeps -/

section

variable {target : String} {w w' : Watch} {e : Event}

/-- A pass is never more than seven turns away. -/
theorem busy_le (w : Watch) : w.busy + 2 ≤ 7 := by
  unfold busy
  split
  · omega
  · next p _ => cases p <;> simp only [Pass.stepsLeft] <;> omega

/-- What an event adds to the notes: a trigger that was offered, or nothing about acceptances. -/
theorem Effect.news (effect : Effect w e w') : ∃ new, w'.notes = w.notes ++ new ∧
    ((∀ t, .accepted t ∉ new) ∨
      ∃ t, new = [.accepted t] ∧ w'.service.queue = w.service.queue ++ [t]) := by
  cases effect with
  | still | lost => exact ⟨[], (List.append_nil _).symm, .inl (by simp)⟩
  | accept t _ => exact ⟨_, rfl, .inr ⟨t, rfl, rfl⟩⟩
  | ignore | begin | move | leave => exact ⟨_, rfl, .inl (by simp)⟩

/-- What was accepted stays heeded, and a new acceptance is heeded behind all others. -/
theorem heeded_effect (h : w.Faithful target) (ht : w.service.config.target = target)
    (effect : Effect w e w') (alive : w'.service.lifecycle.Alive) {before after : List Note}
    {t : Trigger} (place : w'.notes = before ++ .accepted t :: after) :
    Heeded target w' t 7 after := by
  obtain ⟨new, hn, news⟩ := effect.news
  rcases split_concat (hn.symm.trans place) with ⟨rest, hw, rfl⟩ | ⟨mid, -, rfl⟩
  · obtain ⟨new', hn', heeded⟩ :=
      (h.heeded before t rest hw).effect ht effect alive (.inl rfl)
    obtain rfl : new = new' := List.append_cancel_left (hn.symm.trans hn')
    exact heeded
  · rcases news with quiet | ⟨u, one, hq⟩
    · exact absurd (List.mem_append_right mid (List.mem_cons_self ..)) (quiet t)
    · obtain ⟨rfl, hu⟩ := List.append_eq_singleton_iff.1 one |>.resolve_right (by simp)
      obtain ⟨hu, rfl⟩ := List.cons.inj hu
      cases hu
      exact .waiting w.service.queue hq (busy_le w')

theorem faithful_new (config : Config) (site : Site) (target : String) :
    (new config site).Faithful target where
  taken := rfl
  nonempty := nofun
  rounds := ⟨[], [], rfl, nofun, rfl⟩
  passes := rfl
  heeded before t after h := by simp [new] at h

theorem Effect.faithful (effect : Effect w e w') (alive : w'.service.lifecycle.Alive)
    (ht : w.service.config.target = target) (h : w.Faithful target) : w'.Faithful target := by
  have heeded : ∀ before t after, w'.notes = before ++ .accepted t :: after →
      Heeded target w' t 7 after :=
    fun _ _ _ => heeded_effect h ht effect alive
  obtain ⟨taken, nonempty, ⟨rounds, last, doings, sound, underway⟩, passes, -⟩ := h
  cases effect with
  | still => exact ⟨taken, nonempty, ⟨rounds, last, doings, sound, underway⟩, passes, heeded⟩
  | lost => exact alive.elim
  | accept t _ =>
    refine ⟨?_, ?_, ⟨rounds, last, ?_, sound, underway⟩, ?_, heeded⟩
    · simp [taken]
    · simpa using nonempty
    · simpa using doings
    · simpa using passes
  | ignore idle waiting uncalled =>
    rw [ht] at uncalled
    obtain rfl : last = [] := by simpa [idle, Underway] using underway
    refine ⟨?_, ?_, ⟨rounds ++ [.ignored w.service.queue], [], ?_, ?_, ?_⟩, ?_, heeded⟩
    · simp [taken]
    · rw [batches_append]
      exact List.forall_mem_append.2 ⟨nonempty, List.forall_mem_singleton.2 waiting⟩
    · simp [doings, Round.notes]
    · exact List.forall_mem_append.2 ⟨sound, List.forall_mem_singleton.2 uncalled⟩
    · simp [idle, Underway]
    · simpa [Calls, uncalled] using passes
  | begin idle called =>
    rw [ht] at called
    obtain rfl : last = [] := by simpa [idle, Underway] using underway
    refine ⟨?_, ?_, ⟨rounds, [.took w.service.queue, .began], ?_, sound, ?_⟩, ?_, heeded⟩
    · simp [taken]
    · rw [batches_append]
      exact List.forall_mem_append.2
        ⟨nonempty, List.forall_mem_singleton.2 (nonempty_of_calls called)⟩
    · simp [doings]
    · exact ⟨w.service.queue, [], rfl, called, by rw [ht]; exact .start⟩
    · simpa [Calls, called] using passes
  | move p active going =>
    rw [active] at underway
    obtain ⟨batch, calls, rfl, called, trace⟩ := underway
    have longer := trace.step w.site going
    refine ⟨?_, ?_, ⟨rounds, _, ?_, sound, batch, _, rfl, called, longer⟩, ?_, heeded⟩
    · simpa using taken
    · simpa using nonempty
    · simp [doings]
    · rw [List.countP_append, countP_called]
      simpa using passes
  | leave r active =>
    rw [active] at underway
    obtain ⟨batch, calls, rfl, called, trace⟩ := underway
    refine ⟨?_, ?_, ⟨rounds ++ [.served batch calls r], [], ?_, ?_, rfl⟩, ?_, heeded⟩
    · simpa using taken
    · simpa using nonempty
    · simp [doings, Round.notes]
    · exact List.forall_mem_append.2 ⟨sound, List.forall_mem_singleton.2 ⟨called, trace⟩⟩
    · simpa using passes

theorem faithful_run {es : List Event} (alive : (w.run es).service.lifecycle.Alive)
    (ht : w.service.config.target = target) (h : w.Faithful target) :
    (w.run es).Faithful target := by
  induction es generalizing w with
  | nil => exact h
  | cons e es ih =>
    have effect := effect_step w e
    exact ih alive (effect.config ▸ ht) (effect.faithful (alive_of_run alive) ht h)

/-- A loop that runs waits, in that its turn changes nothing, only when it is at no pass and its
queue is empty. -/
theorem waits_iff (running : w.service.lifecycle = .running) :
    w.step .turn = w ↔ w.service.pass = none ∧ w.service.queue = [] := by
  constructor
  · intro same
    have effect := effect_step w .turn
    generalize hw : w.step .turn = w' at effect same
    cases effect with
    | still _ _ _ _ waits => exact waits rfl running
    | lost stopped => exact absurd running (stopped trivial)
    | accept _ offered => cases offered
    | ignore | begin | leave => simpa using congrArg Watch.notes same
    | move p active going =>
      have stuck := congrArg (fun w => w.service.pass) same
      have nearer := Pass.stepsLeft_step (s := w.site) going
      simp only [active, Option.some.injEq] at stuck
      rw [stuck] at nearer
      exact absurd nearer (Nat.lt_irrefl _)
  · rintro ⟨idle, empty⟩
    simp [step, turn, Service.canWake, Service.rest, idle, empty, running]

/-- In seven turns of its loop, a service that runs takes what it had accepted, and fetches the target
for each trigger that calls for it. -/
theorem Faithful.served {es : List Event} (h : w.Faithful target)
    (ht : w.service.config.target = target) (spares : ∀ e ∈ es, e.Spares)
    (running : w.service.lifecycle = .running) (enough : 7 ≤ es.countP Event.isTurn)
    {before after : List Note} {t : Trigger} (place : w.notes = before ++ .accepted t :: after) :
    ∃ ahead mid rest, (w.run es).notes =
        before ++ .accepted t :: (mid ++ .took (ahead ++ t :: accepted mid) :: rest) ∧
      (t.concerns target = true → ∃ found, .called (.get target found) ∈ rest) := by
  obtain ⟨new, hn, heeded⟩ := (h.heeded before t after place).run ht spares running
  rw [place, List.append_assoc, List.cons_append] at hn
  rw [Nat.sub_eq_zero_of_le enough] at heeded
  cases heeded with
  | waiting ahead _ soon => omega
  | taken ahead mid rest split soon =>
    refine ⟨ahead, mid, rest, split ▸ hn, fun called => ?_⟩
    exact (soon called).resolve_left fun late => absurd late.2 (by omega)

end

end Watch

/-- As long as a service has not been stopped, its notes are faithful, with no more passes than
triggers that were accepted and call for one, and a loop that runs waits only when nothing waits for
it. From there, unless it is stopped, a service that runs goes on, whatever its passes answer, and
within seven turns of its loop each trigger that was accepted has been taken, at its place, and the
target has been fetched after that if the trigger calls for it. -/
theorem no_wakeup_lost (config : Config) (site : Site) (es : List Watch.Event)
    (alive : ((Watch.new config site).run es).service.lifecycle.Alive) :
    let w := (Watch.new config site).run es
    w.Faithful config.target ∧
      w.notes.countP Watch.Note.isBegan ≤
        (Watch.accepted w.notes).countP (Trigger.concerns config.target) ∧
      (w.service.lifecycle = .running →
        (w.step .turn = w ↔ w.service.pass = none ∧ w.service.queue = [])) ∧
      ∀ fs, (∀ f ∈ fs, f.Spares) → w.service.lifecycle = .running →
        (w.run fs).service.lifecycle = .running ∧
        (7 ≤ fs.countP Watch.Event.isTurn → ∀ before t after,
          w.notes = before ++ .accepted t :: after →
          ∃ ahead mid rest, (w.run fs).notes = before ++ .accepted t ::
              (mid ++ .took (ahead ++ t :: Watch.accepted mid) :: rest) ∧
            (t.concerns config.target = true →
              ∃ found, .called (.get config.target found) ∈ rest)) := by
  intro w
  have ht : w.service.config.target = config.target := by
    rw [Watch.config_run]
    rfl
  have faithful : w.Faithful config.target :=
    Watch.faithful_run alive rfl (Watch.faithful_new config site config.target)
  refine ⟨faithful, ?_, Watch.waits_iff, ?_⟩
  · rw [faithful.passes, faithful.taken, List.countP_append]
    exact Nat.le_trans (Watch.countP_calls_le _ _) (Nat.le_add_right _ _)
  · intro fs spares running
    refine ⟨Watch.running_run spares running, fun enough before t after place => ?_⟩
    exact faithful.served ht spares running enough place

/-- Triggers before the start, of which one finds the queue full, during a pass whose listing fails,
and after one that finds the store unavailable. -/
def busyDay : List Watch.Event :=
  [.offer (.target "other"), .offer (.member "a"), .offer (.member "b"), .start, .turn, .turn,
    .offer (.target "agg"), .turn, .change ⟨.single "agg", .empty, some "offline", .epoch⟩, .turn,
    .turn, .offer (.target "other"), .turn, .turn,
    .change ⟨⟨[.new "agg"], 0, true⟩, .empty, none, .epoch⟩, .turn, .turn, .offer (.target "other"),
    .turn, .offer (.member "c")]

/-- Two passes, which both fail, for six triggers, of which the last is still to be served. -/
theorem no_wakeup_lost_busyDay :
    ((Watch.new ⟨"agg", 2⟩ (.new (.single "agg") .empty)).run busyDay).service.lifecycle.Alive ∧
      Watch.batches ((Watch.new ⟨"agg", 2⟩ (.new (.single "agg") .empty)).run busyDay).notes =
        [[.target "other", .member "a"], [.target "agg", .target "other"], [.target "other"]] ∧
      Watch.accepted ((Watch.new ⟨"agg", 2⟩ (.new (.single "agg") .empty)).run busyDay).notes =
        [.target "other", .member "a", .target "agg", .target "other", .target "other",
          .member "c"] ∧
      ((Watch.new ⟨"agg", 2⟩ (.new (.single "agg") .empty)).run busyDay).notes.countP
        Watch.Note.isBegan = 2 ∧
      ((Watch.new ⟨"agg", 2⟩ (.new (.single "agg") .empty)).run busyDay).Faithful "agg" ∧
      (((Watch.new ⟨"agg", 2⟩ (.new (.single "agg") .empty)).run busyDay).run
        (.replicate 7 .turn)).service.lifecycle = .running := by
  have alive : ((Watch.new ⟨"agg", 2⟩ (.new (.single "agg") .empty)).run
      busyDay).service.lifecycle.Alive := by decide +kernel
  have kept := no_wakeup_lost ⟨"agg", 2⟩ (.new (.single "agg") .empty) busyDay alive
  refine ⟨alive, by decide +kernel, by decide +kernel, by decide +kernel, kept.1, ?_⟩
  exact (kept.2.2.2 (.replicate 7 .turn) (by decide +kernel) (by decide +kernel)).1

end FleetHealth

import FleetHealth.Proofs.Json.Exact
import FleetHealth.Proofs.Json.LeftOut

/-!
Records that go by the value alone.

What a record takes an object for is said by two folds over its keys (`Fields.gather?`,
`Fields.complete`), and what it takes a list for by one over its fields (`Fields.inOrder?`). The
reader of a record does the same on every spelling (`Reader.means_record`), so a record of exact
codecs is exact.
-/

namespace FleetHealth.Json

open FleetHealth.Text

namespace Fields

variable {αs : List Type}

/-- All fields have exact codecs. -/
def Exact {αs : List Type} : Fields αs → Prop
  | nil => True
  | cons f more => f.codec.Exact ∧ more.Exact

/-- The slots once a key has been found with a value. -/
def found? {αs : List Type} : Fields αs → String → Tree → Slots αs → Option (Slots αs)
  | nil, _, _, () => some ()
  | cons f more, k, t, (found, slots) =>
    if k = f.key then
      match found with
      | some _ => none
      | none => (f.codec.takes? t).map fun a => (some a, slots)
    else (more.found? k t slots).map fun slots => (found, slots)

/-- The slots once all these keys have been found, one after the other. -/
def gather? (fs : Fields αs) : List (Option String × Tree) → Slots αs → Option (Slots αs)
  | [], slots => some slots
  | (k, t) :: kvs, slots =>
    k.bind fun k => (fs.found? k t slots).bind fun slots => fs.gather? kvs slots

/-- The values of the fields by position, and the elements that are left. -/
def inOrder? {αs : List Type} : Fields αs → List Tree → Option (Values αs × List Tree)
  | nil, ts => some ((), ts)
  | cons f more, t :: ts =>
    (f.codec.takes? t).bind fun a => (more.inOrder? ts).map fun p => ((a, p.1), p.2)
  | cons f more, [] => f.absent.bind fun a => (more.inOrder? []).map fun p => ((a, p.1), p.2)

/-- The values that a record takes from an object, or from a list with no elements left. -/
def record? (fs : Fields αs) : Tree → Option (Values αs)
  | .object kvs => (fs.gather? kvs fs.noSlots).bind fun slots => (fs.complete slots).toOption
  | .list ts =>
    match fs.inOrder? ts with
    | some (vs, []) => some vs
    | _ => none
  | _ => none

theorem found?_same {α : Type} (f : Field α) (more : Fields αs) (t : Tree) (slots : Slots αs) :
    (cons f more).found? f.key t (none, slots) =
      (f.codec.takes? t).map fun a => (some a, slots) :=
  if_pos rfl

theorem found?_twice {α : Type} (f : Field α) (more : Fields αs) (t : Tree) (a : α)
    (slots : Slots αs) : (cons f more).found? f.key t (some a, slots) = none :=
  if_pos rfl

theorem found?_other {α : Type} {f : Field α} (more : Fields αs) {k : String} (h : k ≠ f.key)
    (t : Tree) (found : Option α) (slots : Slots αs) :
    (cons f more).found? k t (found, slots) =
      (more.found? k t slots).map fun slots => (found, slots) :=
  if_neg h

/-- What follows a key is taken by its field, or left out. -/
theorem assign_spelled {fs : Fields αs} (isExact : fs.Exact) (k : String) {slots : Slots αs}
    {t : Tree} {before after s r : List Char} (blank : Blank before) (blank' : Blank after)
    (value : Spelled t s) (settled : Settled r) :
    ((fs.assign k slots).run (before ++ ':' :: (after ++ (s ++ r)))).toOption =
      (fs.found? k t slots).map (·, r) := by
  induction fs with
  | nil =>
    obtain ⟨⟩ := slots
    rw [assign, Reader.run_bind_ok (Reader.run_colon blank),
      Reader.run_leftOut blank' value settled]
    rfl
  | cons f more ih =>
    obtain ⟨found, slots⟩ := slots
    obtain ⟨codec, others⟩ := isExact
    by_cases same : k = f.key
    · subst same
      cases found with
      | some a =>
        rw [found?_twice, assign, if_pos rfl]
        rfl
      | none =>
        rw [assign_same, Reader.run_bind_ok (Reader.run_colon blank), Reader.toOption_bind,
          codec blank' value settled, found?_same]
        cases f.codec.takes? t <;> rfl
    · rw [assign_other more same, Reader.toOption_bind, ih others, found?_other more same]
      cases more.found? k t slots <;> rfl

end Fields

namespace Reader

variable {αs : List Type} {fs : Fields αs} {slots : Slots αs} {first : Bool}

/-! ### Objects -/

theorem keyed_of_error {fault : Fault} {s : List Char} (h : (key? first).run s = .error fault) :
    keyed fs first slots s = .error fault := by
  rw [keyed]
  split
  · next h' =>
    cases h.symm.trans h'
    rfl
  · next h' => cases h.symm.trans h'
  · next h' => cases h.symm.trans h'

theorem toOption_keyed {k : String} {s r : List Char} (h : (key? first).run s = .ok (some k, r)) :
    (keyed fs first slots s).toOption = ((fs.assign k slots).run r).toOption.bind fun p =>
      (keyed fs false p.1 p.2).toOption := by
  cases assigned : (fs.assign k slots).run r with
  | ok p =>
    rw [keyed_of_key h assigned]
    rfl
  | error fault =>
    rw [keyed]
    split
    · next h' => cases h.symm.trans h'
    · next h' => cases h.symm.trans h'
    · next h' =>
      cases h.symm.trans h'
      split
      · rfl
      · next e => cases assigned.symm.trans e

/-- All keys of an object are found, up to its closing bracket. -/
theorem keyed_spelled {kvs : List (Option String × Tree)} {s w r : List Char} (isExact : fs.Exact)
    (spelled : SpelledFields first kvs s) (blank : Blank w) :
    (keyed fs first slots (s ++ (w ++ '}' :: r))).toOption =
      (fs.gather? kvs slots).map (·, '}' :: r) := by
  induction kvs generalizing first slots s with
  | nil =>
    cases spelled
    rw [List.nil_append, keyed_of_end (run_key?_end first blank)]
    rfl
  | cons field kvs ih =>
    cases spelled with
    | @cons _ k t _ lead key before after s more leads name blank₁ blank₂ value others =>
      have settled : Settled (more ++ (w ++ '}' :: r)) :=
        others.settled (settled_of_blank blank (Bracket.object.settled r))
      have found := key?_spelled (r := before ++ ':' :: (after ++ (s ++ (more ++ (w ++ '}' :: r)))))
        leads name
      simp only [List.append_assoc, List.cons_append]
      cases run : (key? first).run (lead ++ '"' :: (key ++ '"' :: (before ++ ':' :: (after ++
          (s ++ (more ++ (w ++ '}' :: r))))))) with
      | error fault =>
        rw [run] at found
        rw [keyed_of_error run]
        cases k with
        | none => rfl
        | some k => cases found
      | ok p =>
        rw [run] at found
        cases k with
        | none => cases found
        | some k =>
          cases found
          rw [toOption_keyed run, Fields.assign_spelled isExact k blank₁ blank₂ value settled,
            Fields.gather?]
          simp only [Option.bind_some]
          cases fs.found? k t slots with
          | none => rfl
          | some slots' => exact ih others

/-! ### Lists -/

/-- A list ends unless elements are left. -/
theorem listEnd_spelled {ts : List Tree} {s w r : List Char} (spelled : SpelledElements first ts s)
    (blank : Blank w) :
    (listEnd.run (s ++ (w ++ ']' :: r))).toOption = if ts = [] then some ((), r) else none := by
  cases spelled with
  | nil =>
    rw [List.nil_append, run_listEnd blank]
    rfl
  | @cons _ t ts lead s more leads element others =>
    rw [if_neg (List.cons_ne_nil t ts)]
    simp only [List.append_assoc]
    cases leads with
    | first blank' =>
      obtain ⟨c, opens, token⟩ := run_token_spelled (r := more ++ (w ++ ']' :: r)) blank' element
      rw [listEnd, Reader.run_bind_ok token]
      split
      · rfl
      · next close => cases opens.ne_close .list (Option.some.inj close)
      · next comma => cases opens.ne_comma (Option.some.inj comma)
      · rfl
    | @next _ after before blank' =>
      simp only [List.append_assoc, List.cons_append]
      rw [listEnd, Reader.run_bind_ok (run_token before rfl)]
      simp only
      rw [Reader.run_bind_ok Reader.run_skip_cons, toOption_bind]
      cases token.run (after ++ (s ++ (more ++ (w ++ ']' :: r)))) with
      | error fault => rfl
      | ok p =>
        simp only [toOption_ok, Option.bind_some]
        split <;> rfl

/-- The fields of a record take the elements of a list one by one, and the others are left. -/
theorem positional_spelled (name : String) (total index : Nat) {ts : List Tree} {s w r : List Char}
    (isExact : fs.Exact) (spelled : SpelledElements (index == 0) ts s) (blank : Blank w) :
    match fs.inOrder? ts with
    | none => ((fs.positional name total index).run (s ++ (w ++ ']' :: r))).toOption = none
    | some (vs, left) => ∃ first s' w', SpelledElements first left s' ∧ Blank w' ∧
        (fs.positional name total index).run (s ++ (w ++ ']' :: r)) =
          .ok (vs, s' ++ (w' ++ ']' :: r)) := by
  induction fs generalizing index ts s w with
  | nil => exact ⟨_, s, w, spelled, blank, rfl⟩
  | cons f more ih =>
    obtain ⟨codec, others⟩ := isExact
    cases ts with
    | nil =>
      cases spelled
      have ended : (more? .list (index == 0)).run (w ++ ']' :: r) = .ok (false, ']' :: r) :=
        run_more?_close _ blank
      rw [List.nil_append, Fields.positional, Reader.run_bind_ok ended, Fields.inOrder?]
      simp only [Bool.false_eq_true, if_false]
      cases f.absent with
      | none => rfl
      | some a =>
        have rest := ih (index + 1) others .nil .nil
        simp only [Option.bind_some]
        cases absent : more.inOrder? [] with
        | none =>
          rw [absent] at rest
          have rest : ((more.positional name total (index + 1)).run (']' :: r)).toOption = none :=
            rest
          rw [Option.map_none, toOption_bind, rest]
          rfl
        | some p =>
          obtain ⟨vs, left⟩ := p
          rw [absent] at rest
          obtain ⟨first, s', w', spelled', blank', run⟩ := rest
          exact ⟨first, s', w', spelled', blank', Reader.run_bind_ok run _⟩
    | cons t ts =>
      cases spelled with
      | @cons _ _ _ lead s more' leads element others' =>
        have settled : Settled (more' ++ (w ++ ']' :: r)) :=
          others'.settled (settled_of_blank blank (Bracket.list.settled r))
        have read := codec (w := []) .nil element settled
        rw [List.nil_append] at read
        simp only [List.append_assoc]
        rw [Fields.positional, Reader.run_bind_ok (run_more?_spelled leads element),
          Fields.inOrder?]
        simp only [if_true]
        cases taken : f.codec.takes? t with
        | none =>
          rw [taken] at read
          rw [Option.bind_none, toOption_bind, read]
          rfl
        | some a =>
          rw [taken] at read
          rw [Option.bind_some, Reader.run_bind_ok (toOption_eq_some.1 read)]
          have rest := ih (index + 1) others others' blank
          cases left : more.inOrder? ts with
          | none =>
            rw [left] at rest
            rw [Option.map_none, toOption_bind, rest]
            rfl
          | some p =>
            obtain ⟨vs, left'⟩ := p
            rw [left] at rest
            obtain ⟨first, s', w', spelled', blank', run⟩ := rest
            exact ⟨first, s', w', spelled', blank', Reader.run_bind_ok run _⟩

/-- A record takes what its fields take. -/
theorem means_record (name : String) (isExact : fs.Exact) : (record name fs).Means fs.record? := by
  intro t w s r blank spelled settled
  obtain ⟨c, opens, token⟩ := run_token_spelled (r := r) blank spelled
  rw [record, Reader.run_bind_ok token]
  cases spelled with
  | number number =>
    split
    · next bracket => cases opens.ne_of_number (by decide) rfl (Option.some.inj bracket)
    · next bracket => cases opens.ne_of_number (by decide) rfl (Option.some.inj bracket)
    · exact wrongKind_refuses (.record name) _
  | null | yes | no | text =>
    cases opens
    exact wrongKind_refuses (.record name) _
  | @list ts s w' elements blank' =>
    cases opens
    simp only [List.cons_append, List.append_assoc, List.nil_append]
    rw [Reader.run_bind_ok Reader.run_skip_cons, Fields.record?]
    have taken := positional_spelled name fs.count 0 (r := r) isExact elements blank'
    cases values : fs.inOrder? ts with
    | none =>
      rw [values] at taken
      rw [toOption_bind, taken]
      rfl
    | some p =>
      obtain ⟨vs, left⟩ := p
      rw [values] at taken
      obtain ⟨first, s', w'', spelled', blank'', run⟩ := taken
      rw [Reader.run_bind_ok run, toOption_bind, listEnd_spelled spelled' blank'']
      cases left <;> rfl
  | @object kvs s w' fields blank' =>
    cases opens
    simp only [List.cons_append, List.append_assoc, List.nil_append]
    have slots : ((byKey fs).run (s ++ (w' ++ '}' :: r))).toOption =
        (fs.gather? kvs fs.noSlots).map (·, '}' :: r) := keyed_spelled isExact fields blank'
    rw [Reader.run_bind_ok Reader.run_skip_cons, toOption_bind, slots, Fields.record?]
    cases fs.gather? kvs fs.noSlots with
    | none => rfl
    | some slots =>
      simp only [Option.map_some, Option.bind_some]
      rw [toOption_bind, toOption_ofExcept]
      cases (fs.complete slots).toOption <;> rfl

end Reader

/-! ### Codecs -/

theorem Codec.means_record {α : Type} {αs : List Type} {fs : Fields αs} (name : String)
    (isExact : fs.Exact) (split : α → Values αs) (build : Values αs → α) :
    (Codec.record name fs split build).read.Means fun t => (fs.record? t).map build := by
  intro t w s r blank spelled settled
  rw [Codec.record, Reader.run_map, Reader.toOption_bind,
    Reader.means_record name isExact blank spelled settled]
  dsimp only
  cases fs.record? t <;> rfl

theorem Codec.exact_record {α : Type} {αs : List Type} {fs : Fields αs} (name : String)
    (isExact : fs.Exact) (split : α → Values αs) (build : Values αs → α) :
    (Codec.record name fs split build).Exact :=
  Codec.exact_of_means (Codec.means_record name isExact split build)

end FleetHealth.Json

import FleetHealth.Json.Record
import FleetHealth.Proofs.Json.Reads

/-!
Records that are read from their objects.

While an object is read, the slots hold the values of the fields whose keys have been found
(`Fields.held`). Each key that has not been found yet adds itself (`run_assign`), in whatever order
the keys stand, and at the end every field needs to be found or to do without
(`complete_held`).
-/

namespace FleetHealth.Json

open FleetHealth.Text

namespace Fields

/-- The keys of the fields, in order. -/
def keys {αs : List Type} : Fields αs → List String
  | nil => []
  | cons f more => f.key :: more.keys

/-- The values of the fields whose keys have been found. -/
def held {αs : List Type} (found : List String) : Fields αs → Values αs → Slots αs
  | nil, () => ()
  | cons f more, (a, vs) => (if f.key ∈ found then some a else none, more.held found vs)

/-- The value of the key is the one that the field with that key has. -/
def Takes {αs : List Type} : Fields αs → Values αs → String → Value → Prop
  | nil, (), _, _ => False
  | cons f more, (a, vs), k, v => if k = f.key then f.codec.read.Reads v a else more.Takes vs k v

/-- Each field has been found, or has the value that it has when it is left out. -/
def Covered {αs : List Type} (found : List String) : Fields αs → Values αs → Prop
  | nil, () => True
  | cons f more, (a, vs) => (f.key ∈ found ∨ f.absent = some a) ∧ more.Covered found vs

section

variable {αs : List Type}

theorem held_nil (fs : Fields αs) (vs : Values αs) : fs.held [] vs = fs.noSlots := by
  induction fs with
  | nil => rfl
  | cons f more ih =>
    obtain ⟨a, vs⟩ := vs
    rw [held, noSlots, ih, if_neg List.not_mem_nil]

/-- A key that no field has changes nothing. -/
theorem held_cons_of_not_mem {fs : Fields αs} {vs : Values αs} {k : String} (h : k ∉ fs.keys)
    (found : List String) : fs.held (k :: found) vs = fs.held found vs := by
  induction fs with
  | nil => rfl
  | cons f more ih =>
    obtain ⟨a, vs⟩ := vs
    simp only [keys, List.mem_cons, not_or] at h
    have other : f.key ≠ k := Ne.symm h.1
    exact congrArg₂ Prod.mk (by simp [other]) (ih h.2)

theorem assign_same {α : Type} (f : Field α) (more : Fields αs) (slots : Slots αs) :
    (cons f more).assign f.key (none, slots) =
      (do
        Reader.colon
        pure (some (← f.codec.read), slots)) :=
  if_pos rfl

theorem assign_other {α : Type} {f : Field α} (more : Fields αs) {k : String} (h : k ≠ f.key)
    (found : Option α) (slots : Slots αs) :
    (cons f more).assign k (found, slots) = (do pure (found, ← more.assign k slots)) :=
  if_neg h

/-- The value after a key that is new is assigned to the field with that key. -/
theorem run_assign {fs : Fields αs} {vs : Values αs} {k : String} {v : Value} {found : List String}
    {before after s r : List Char} (distinct : fs.keys.Nodup) (takes : fs.Takes vs k v)
    (new : k ∉ found) (blank : Blank before) (blank' : Blank after) (laid : Laid v s)
    (settled : Settled r) :
    (fs.assign k (fs.held found vs)).run (before ++ ':' :: (after ++ (s ++ r))) =
      .ok (fs.held (k :: found) vs, r) := by
  induction fs with
  | nil => exact takes.elim
  | cons f more ih =>
    obtain ⟨a, vs⟩ := vs
    obtain ⟨once, distinct⟩ := List.nodup_cons.1 distinct
    by_cases same : k = f.key
    · subst same
      rw [Takes, if_pos rfl] at takes
      rw [held, held, held_cons_of_not_mem once, if_neg new, if_pos List.mem_cons_self, assign_same,
        Reader.run_bind_ok (Reader.run_colon blank),
        Reader.run_bind_ok (takes blank' laid settled)]
      rfl
    · rw [Takes, if_neg same] at takes
      have kept : f.key ∈ k :: found ↔ f.key ∈ found := by simp [Ne.symm same]
      rw [held, held, assign_other more same, Reader.run_bind_ok (ih distinct takes)]
      simp only [kept]
      rfl

theorem complete_held {fs : Fields αs} {vs : Values αs} {found : List String}
    (covered : fs.Covered found vs) : fs.complete (fs.held found vs) = .ok vs := by
  induction fs with
  | nil => rfl
  | cons f more ih =>
    obtain ⟨a, vs⟩ := vs
    obtain ⟨covered, others⟩ := covered
    have value : (if f.key ∈ found then some a else none).or f.absent = some a := by
      by_cases h : f.key ∈ found
      · simp [h]
      · simpa [h] using covered.resolve_left h
    rw [held, complete, value]
    simp only
    rw [ih others]
    rfl

end

end Fields

namespace Reader

variable {αs : List Type} {fs : Fields αs} {slots slots' : Slots αs} {first : Bool}

theorem keyed_of_end {s r : List Char} (h : (key? first).run s = .ok (none, r)) :
    keyed fs first slots s = .ok (slots, r) := by
  rw [keyed]
  split
  · next h' => cases h.symm.trans h'
  · next h' =>
    cases h.symm.trans h'
    rfl
  · next h' => cases h.symm.trans h'

theorem keyed_of_key {k : String} {s r r' : List Char} (h : (key? first).run s = .ok (some k, r))
    (h' : (fs.assign k slots).run r = .ok (slots', r')) :
    keyed fs first slots s = keyed fs false slots' r' := by
  rw [keyed]
  split
  · next h'' => cases h.symm.trans h''
  · next h'' => cases h.symm.trans h''
  · next h'' =>
    cases h.symm.trans h''
    split
    · next e => cases h'.symm.trans e
    · next e =>
      cases h'.symm.trans e
      rfl

theorem run_key?_end {w r : List Char} (first : Bool) (blank : Blank w) :
    (key? first).run (w ++ '}' :: r) = .ok (none, '}' :: r) := by
  have closed : (more? .object first).run (w ++ '}' :: r) = .ok (false, '}' :: r) :=
    run_more?_close first blank
  rw [key?, Reader.run_bind_ok closed]
  rfl

theorem run_key?_lead {w r : List Char} (lead : Lead first w) (k : String) :
    (key? first).run (w ++ (Value.writeText k ++ r)) = .ok (some k, r) := by
  have another : (more? .object first).run (w ++ (Value.writeText k ++ r)) =
      .ok (true, '"' :: (k.toList.flatMap Value.escape ++ '"' :: r)) := by
    simpa [Value.writeText] using
      run_more?_lead (b := .object) (c := '"') lead rfl (by decide)
  rw [key?, Reader.run_bind_ok another]
  simp only [if_true]
  rw [Reader.run_bind_ok Reader.run_peek, List.head?_cons, if_pos rfl,
    Reader.run_bind_ok Reader.run_skip_cons, Reader.run_bind_ok (run_text k)]
  rfl

/-- The fields of an object are read up to the closing bracket, in whatever order they stand. -/
theorem run_keyed {vs : Values αs} {kvs : List (String × Value)} {found : List String}
    {s w r : List Char} (distinct : fs.keys.Nodup)
    (takes : ∀ f ∈ kvs, fs.Takes vs f.1 f.2) (once : (kvs.map Prod.fst).Nodup)
    (new : ∀ f ∈ kvs, f.1 ∉ found) (laid : LaidFields first kvs s) (blank : Blank w) :
    keyed fs first (fs.held found vs) (s ++ (w ++ '}' :: r)) =
      .ok (fs.held ((kvs.map Prod.fst).reverse ++ found) vs, '}' :: r) := by
  induction kvs generalizing first found s with
  | nil =>
    cases laid
    exact keyed_of_end (run_key?_end first blank)
  | cons f kvs ih =>
    cases laid with
    | @cons _ k v _ lead before after s t leads blank₁ blank₂ value more =>
      obtain ⟨other, once⟩ := List.nodup_cons.1 once
      have settled : Settled (t ++ (w ++ '}' :: r)) :=
        more.settled (settled_of_blank blank (Bracket.object.settled r))
      have key : (key? first).run (lead ++ (Value.writeText k ++ (before ++ ':' :: (after ++
          (s ++ t)))) ++ (w ++ '}' :: r)) = .ok (some k, before ++ ':' :: (after ++
          (s ++ (t ++ (w ++ '}' :: r))))) := by
        simpa using run_key?_lead leads k
      have assigned := Fields.run_assign distinct (takes (k, v) List.mem_cons_self)
        (new (k, v) List.mem_cons_self) blank₁ blank₂ value settled
      rw [keyed_of_key key assigned,
        ih (fun f hf => takes f (List.mem_cons_of_mem _ hf)) once ?_ more]
      · simp
      · intro f hf found
        rcases List.mem_cons.1 found with same | old
        · exact other (same ▸ List.mem_map_of_mem hf)
        · exact new f (List.mem_cons_of_mem _ hf) old

/-- An object is read as a record if its keys are keys of the record, each at most once, and no
field is missing. -/
theorem reads_record {vs : Values αs} {kvs : List (String × Value)} (name : String)
    (distinct : fs.keys.Nodup) (takes : ∀ f ∈ kvs, fs.Takes vs f.1 f.2)
    (once : (kvs.map Prod.fst).Nodup) (covered : fs.Covered (kvs.map Prod.fst).reverse vs) :
    Reads (record name fs) (.object kvs) vs := by
  intro w s r blank laid settled
  cases laid with
  | @object _ s w' fields blank' =>
    have text : w ++ ('{' :: (s ++ (w' ++ ['}'])) ++ r) = w ++ '{' :: (s ++ (w' ++ '}' :: r)) := by
      simp
    have slots : (byKey fs).run (s ++ (w' ++ '}' :: r)) =
        .ok (fs.held ((kvs.map Prod.fst).reverse ++ []) vs, '}' :: r) := by
      show keyed fs true fs.noSlots _ = _
      rw [← Fields.held_nil fs vs]
      exact run_keyed distinct takes once (fun _ _ => List.not_mem_nil) fields blank'
    rw [List.append_nil] at slots
    rw [text, record, Reader.run_bind_ok (run_token blank rfl)]
    simp only
    rw [Reader.run_bind_ok Reader.run_skip_cons, Reader.run_bind_ok slots,
      Fields.complete_held covered, Reader.run_bind_ok Reader.run_ofExcept_ok]
    rfl

end Reader

end FleetHealth.Json

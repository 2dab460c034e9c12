import FleetHealth.Proofs.Json.Keys

/-!
Where the fields of a record stand.

A record is an object or a list, so a field stands under its key or at its place (`Tree.field`). The
values that a record is taken for are those of what stands there (`Fields.Holds`), field by field.
-/

namespace FleetHealth.Json

/-! ### Parts of a value -/

/-- What stands at a field: under its key in an object, at its place in a list. -/
def Tree.field (key : String) (place : Nat) : Tree → List Tree
  | .object kvs => (kvs.filter fun kv => kv.1 = some key).map Prod.snd
  | .list ts => ts[place]?.toList
  | _ => []

/-- The elements of a list. -/
def Tree.elements : Tree → List Tree
  | .list ts => ts
  | _ => []

/-- The value has a spelling. -/
def Tree.Spells (t : Tree) : Prop := ∃ s, Spelled t s

theorem Tree.field_named (kvs : List (String × Tree)) (key : String) (place : Nat) :
    (Tree.object (named kvs)).field key place = valuesAt kvs key := by
  simp only [field, named, valuesAt, List.filter_map, List.map_map, Function.comp_def,
    Option.some.injEq]

theorem SpelledElements.spells {first : Bool} {ts : List Tree} {s : List Char}
    (h : SpelledElements first ts s) : ∀ t ∈ ts, t.Spells := by
  induction ts generalizing first s with
  | nil => exact nofun
  | cons t ts ih =>
    cases h with
    | cons _ element others => exact List.forall_mem_cons.2 ⟨⟨_, element⟩, ih others⟩

theorem SpelledFields.spells {first : Bool} {kvs : List (Option String × Tree)} {s : List Char}
    (h : SpelledFields first kvs s) : ∀ kv ∈ kvs, kv.2.Spells := by
  induction kvs generalizing first s with
  | nil => exact nofun
  | cons kv kvs ih =>
    cases h with
    | cons _ _ _ _ value others => exact List.forall_mem_cons.2 ⟨⟨_, value⟩, ih others⟩

section

variable {t u : Tree}

/-- What has a spelling is made of what has one. -/
theorem Tree.Spells.elements (h : t.Spells) (part : u ∈ t.elements) : u.Spells := by
  obtain ⟨s, h⟩ := h
  cases h with
  | list elements _ => exact elements.spells u part
  | null | yes | no | number | text | object => cases part

theorem Tree.Spells.field {key : String} {place : Nat} (h : t.Spells)
    (part : u ∈ t.field key place) : u.Spells := by
  obtain ⟨s, h⟩ := h
  cases h with
  | list elements _ =>
    exact elements.spells u (List.mem_of_getElem? (Option.mem_toList.1 part))
  | object fields _ =>
    obtain ⟨kv, found, rfl⟩ := List.mem_map.1 part
    exact fields.spells kv (List.mem_filter.1 found).1
  | null | yes | no | number | text => cases part

end

/-! ### Values of fields -/

/-- Something holds of the value of a field if it is seen of what stands there, unless it holds of
the value that the field has when it is left out. -/
theorem Field.exists_iff {α : Type} {f : Field α} {a : α} {ts : List Tree} {P : α → Prop}
    {Q : Tree → Prop} (value : f.value? ts = some a) (absent : ∀ a, f.absent = some a → ¬ P a)
    (taken : ∀ t ∈ ts, ∀ a, f.codec.takes? t = some a → (P a ↔ Q t)) :
    P a ↔ ∃ t ∈ ts, Q t := by
  match ts, value with
  | [], value => simpa using absent a value
  | [t], value => simpa using taken t List.mem_cons_self a value

namespace Fields

variable {αs : List Type} {fs : Fields αs} {vs : Values αs} {slots slots' : Slots αs}

/-- The fields, the first of them at this place, have these values. -/
def Holds {αs : List Type} : Fields αs → Nat → Tree → Values αs → Prop
  | nil, _, _, () => True
  | cons f more, place, t, (a, vs) =>
    f.value? (t.field f.key place) = some a ∧ more.Holds (place + 1) t vs

/-- Only keys that have characters are found. -/
theorem named_of_gather? {kvs : List (Option String × Tree)}
    (found : fs.gather? kvs slots = some slots') : ∃ kvs', kvs = named kvs' := by
  induction kvs generalizing slots with
  | nil => exact ⟨[], rfl⟩
  | cons kv kvs ih =>
    obtain ⟨k, t⟩ := kv
    obtain ⟨k, rfl, found_here⟩ := Option.bind_eq_some_iff.1 found
    obtain ⟨slots, -, others⟩ := Option.bind_eq_some_iff.1 found_here
    obtain ⟨kvs, rfl⟩ := ih others
    exact ⟨(k, t) :: kvs, rfl⟩

theorem holds_of_values? {kvs : List (String × Tree)} (values : fs.values? kvs = some vs)
    (place : Nat) : fs.Holds place (.object (named kvs)) vs := by
  induction fs generalizing place with
  | nil => trivial
  | cons f more ih =>
    obtain ⟨a, vs⟩ := vs
    rw [values?] at values
    obtain ⟨b, value, values⟩ := Option.bind_eq_some_iff.1 values
    obtain ⟨ws, values, same⟩ := Option.map_eq_some_iff.1 values
    cases same
    exact ⟨by rwa [Tree.field_named], ih values (place + 1)⟩

/-- By position each field is at the place after the elements that have been taken, and once they
are all taken there is nothing at any place. -/
theorem holds_of_inOrder? {ts : List Tree} (values : fs.inOrder? ts = some (vs, []))
    {all : List Tree} {place : Nat} (left : all.drop place = ts) :
    fs.Holds place (.list all) vs := by
  induction fs generalizing place ts with
  | nil => trivial
  | cons f more ih =>
    have first : all[place]? = ts.head? := by rw [← left, List.head?_drop]
    have rest : all.drop (place + 1) = ts.tail := by rw [← left, List.tail_drop]
    obtain ⟨a, vs⟩ := vs
    cases ts with
    | nil =>
      obtain ⟨b, absent, others⟩ := Option.bind_eq_some_iff.1 values
      obtain ⟨⟨ws, spare⟩, others', same⟩ := Option.map_eq_some_iff.1 others
      cases same
      refine ⟨?_, ih others' rest⟩
      simpa [Tree.field, first, Field.value?] using absent
    | cons t ts =>
      obtain ⟨b, value, others⟩ := Option.bind_eq_some_iff.1 values
      obtain ⟨⟨ws, spare⟩, others', same⟩ := Option.map_eq_some_iff.1 others
      cases same
      refine ⟨?_, ih others' rest⟩
      simpa [Tree.field, first, Field.value?] using value

/-- A record is taken for the values of what stands at its fields. -/
theorem holds_of_record? {t : Tree} (distinct : fs.keys.Nodup) (values : fs.record? t = some vs) :
    fs.Holds 0 t vs := by
  cases t with
  | object kvs =>
    obtain ⟨slots, found, -⟩ := Option.bind_eq_some_iff.1 values
    obtain ⟨kvs, rfl⟩ := named_of_gather? found
    rw [record?_object distinct] at values
    exact holds_of_values? values 0
  | list ts =>
    rw [record?] at values
    split at values
    · next ws taken =>
      cases values
      exact holds_of_inOrder? taken List.drop_zero
    · cases values
  | null | boolean | number | text => cases values

end Fields

/-! ### Codecs -/

theorem forall₂_of_mapM {α β : Type} {f : α → Option β} {as : List α} {bs : List β}
    (h : as.mapM f = some bs) : List.Forall₂ (fun a b => f a = some b) as bs := by
  induction as generalizing bs with
  | nil =>
    cases h
    exact .nil
  | cons a as ih =>
    rw [List.mapM_cons] at h
    obtain ⟨b, first, rest⟩ := Option.bind_eq_some_iff.1 h
    obtain ⟨bs, others, same⟩ := Option.bind_eq_some_iff.1 rest
    cases same
    exact .cons first (ih others)

namespace Codec

variable {α : Type} {αs : List Type} {t : Tree}

theorem holds_of_takes? {name : String} {fs : Fields αs} {split : α → Values αs}
    {build : Values αs → α} {a : α} (isExact : fs.Exact) (distinct : fs.keys.Nodup) (h : t.Spells)
    (taken : (record name fs split build).takes? t = some a) :
    ∃ vs, build vs = a ∧ fs.Holds 0 t vs := by
  obtain ⟨s, spelled⟩ := h
  rw [takes?_eq (means_record name isExact split build) spelled] at taken
  obtain ⟨vs, values, built⟩ := Option.map_eq_some_iff.1 taken
  exact ⟨vs, built, Fields.holds_of_record? distinct values⟩

/-- The elements of a list are taken one by one, in order. -/
theorem elements_of_takes? {c : Codec α} {as : List α} (isExact : c.Exact) (h : t.Spells)
    (taken : (list c).takes? t = some as) :
    List.Forall₂ (fun t a => c.takes? t = some a) t.elements as := by
  obtain ⟨s, spelled⟩ := h
  rw [takes?_eq (c := list c) (Reader.means_list isExact) spelled] at taken
  cases t with
  | list ts => exact forall₂_of_mapM taken
  | null | boolean | number | text | object => cases taken

/-- Something holds of an element of a list if it is seen of one of the elements that it is taken
from. -/
theorem exists_iff {c : Codec α} {as : List α} (isExact : c.Exact) (h : t.Spells)
    (taken : (list c).takes? t = some as) {P : α → Prop} {Q : Tree → Prop}
    (seen : ∀ u ∈ t.elements, ∀ a, c.takes? u = some a → (P a ↔ Q u)) :
    (∃ a ∈ as, P a) ↔ ∃ u ∈ t.elements, Q u := by
  have elements := elements_of_takes? isExact h taken
  clear taken
  generalize t.elements = us at elements seen
  induction elements with
  | nil => simp
  | cons first others ih =>
    obtain ⟨here, seen⟩ := List.forall_mem_cons.1 seen
    rw [List.exists_mem_cons_iff, List.exists_mem_cons_iff]
    exact or_congr (here _ first) (ih seen)

end Codec

end FleetHealth.Json

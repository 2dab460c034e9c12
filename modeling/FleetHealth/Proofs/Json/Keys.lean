import FleetHealth.Proofs.Json.ByKey

/-!
What a record takes from the keys of an object.

`Fields.values?` asks each field for the values under its key, without regard to the order of the
keys or to keys that no field has. Finding the keys one after the other comes to the same
(`Fields.gather?_complete`), so a codec of a record reads objects by their keys
(`Codec.ReadsByKey`).
-/

namespace FleetHealth.Json

/-- The fields of an object whose keys all have characters. -/
def named (kvs : List (String × Tree)) : List (Option String × Tree) :=
  kvs.map fun kv => (some kv.1, kv.2)

/-- The text is a document of an object with these keys, in this order. -/
def IsObject (kvs : List (String × Tree)) (s : String) : Prop :=
  (Tree.object (named kvs)).Document s

/-- The values under a key, in the order of the object. -/
def valuesAt (kvs : List (String × Tree)) (k : String) : List Tree :=
  (kvs.filter fun kv => kv.1 = k).map Prod.snd

section

variable {kvs : List (String × Tree)} {k : String} {t : Tree}

theorem valuesAt_cons_same (k : String) (t : Tree) (kvs : List (String × Tree)) :
    valuesAt ((k, t) :: kvs) k = t :: valuesAt kvs k := by
  simp [valuesAt]

theorem valuesAt_cons_other {k k' : String} (h : k ≠ k') (t : Tree) (kvs : List (String × Tree)) :
    valuesAt ((k, t) :: kvs) k' = valuesAt kvs k' := by
  simp [valuesAt, h]

theorem mem_valuesAt : t ∈ valuesAt kvs k ↔ (k, t) ∈ kvs := by
  simp [valuesAt]

theorem length_valuesAt (kvs : List (String × Tree)) (k : String) :
    (valuesAt kvs k).length = (kvs.map Prod.fst).count k := by
  induction kvs with
  | nil => rfl
  | cons kv kvs ih =>
    obtain ⟨k', t⟩ := kv
    by_cases same : k' = k
    · subst same
      rw [valuesAt_cons_same, List.length_cons, ih, List.map_cons, List.count_cons_self]
    · rw [valuesAt_cons_other same, ih, List.map_cons, List.count_cons_of_ne same]

theorem valuesAt_eq_nil : valuesAt kvs k = [] ↔ k ∉ kvs.map Prod.fst := by
  rw [← List.length_eq_zero_iff, length_valuesAt, List.count_eq_zero]

end

/-! ### One field -/

namespace Field

variable {α : Type} {f : Field α} {kvs : List (String × Tree)} {a : α}

/-- The value of the field from the values under its key. -/
def value? (f : Field α) : List Tree → Option α
  | [] => f.absent
  | [t] => f.codec.takes? t
  | _ => none

/-- The slot of the field once these values have been found under its key, one after the other. -/
def fill? (f : Field α) : Option α → List Tree → Option (Option α)
  | found, [] => some found
  | none, t :: ts => (f.codec.takes? t).bind fun a => f.fill? (some a) ts
  | some _, _ :: _ => none

/-- The field can be read from an object: its key does not occur twice, it does occur unless the
field may be left out, and what stands under it can be read. -/
structure Readable (f : Field α) (kvs : List (String × Tree)) : Prop where
  once : (kvs.map Prod.fst).count f.key ≤ 1
  present : f.absent = none → f.key ∈ kvs.map Prod.fst
  reads : ∀ t, (f.key, t) ∈ kvs → ∃ a, f.codec.takes? t = some a

/-- The field has what stands under its key, or the value that it has when it is left out. -/
structure Given (f : Field α) (kvs : List (String × Tree)) (a : α) : Prop where
  present : ∀ t, (f.key, t) ∈ kvs → f.codec.takes? t = some a
  absent : f.key ∉ kvs.map Prod.fst → f.absent = some a

theorem fill?_or_absent (f : Field α) (ts : List Tree) :
    ((f.fill? none ts).bind fun found => found.or f.absent) = f.value? ts := by
  match ts with
  | [] => rfl
  | [t] =>
    rw [fill?, value?]
    cases f.codec.takes? t <;> rfl
  | t :: t' :: ts =>
    rw [fill?]
    cases f.codec.takes? t <;> rfl

theorem readable_iff_values : f.Readable kvs ↔ (valuesAt kvs f.key).length ≤ 1 ∧
    (f.absent = none → valuesAt kvs f.key ≠ []) ∧
    ∀ t ∈ valuesAt kvs f.key, ∃ a, f.codec.takes? t = some a := by
  simp only [length_valuesAt, mem_valuesAt, ne_eq, valuesAt_eq_nil, not_not]
  constructor
  · rintro ⟨once, present, reads⟩
    exact ⟨once, present, reads⟩
  · rintro ⟨once, present, reads⟩
    exact ⟨once, present, reads⟩

theorem given_iff_values : f.Given kvs a ↔
    (∀ t ∈ valuesAt kvs f.key, f.codec.takes? t = some a) ∧
    (valuesAt kvs f.key = [] → f.absent = some a) := by
  simp only [mem_valuesAt, valuesAt_eq_nil]
  constructor
  · rintro ⟨present, absent⟩
    exact ⟨present, absent⟩
  · rintro ⟨present, absent⟩
    exact ⟨present, absent⟩

/-- A field that can be read has a value. -/
theorem readable_iff : f.Readable kvs ↔ ∃ a, f.value? (valuesAt kvs f.key) = some a := by
  rw [readable_iff_values]
  match valuesAt kvs f.key with
  | [] => simp [value?, Option.ne_none_iff_exists']
  | [t] => simp [value?]
  | t :: t' :: ts => simp [value?]

/-- The value of a field that can be read is the one that it has. -/
theorem value?_eq_some :
    f.value? (valuesAt kvs f.key) = some a ↔ f.Readable kvs ∧ f.Given kvs a := by
  rw [readable_iff_values, given_iff_values]
  match valuesAt kvs f.key with
  | [] =>
    have left : f.value? [] = f.absent := rfl
    cases absent : f.absent <;> simp [left, absent]
  | [t] =>
    have taken : f.value? [t] = f.codec.takes? t := rfl
    cases takes : f.codec.takes? t <;> simp [taken, takes]
  | t :: t' :: ts => simp [value?]

/-- The order of the values under a key is of no account, nor are values that are taken for the
same. -/
theorem value?_perm {ts ts' : List Tree}
    (h : (ts.map f.codec.takes?).Perm (ts'.map f.codec.takes?)) : f.value? ts = f.value? ts' := by
  match ts, ts', h, h.length_eq with
  | [], [], _, _ => rfl
  | [t], [t'], h, _ => simpa [value?] using h
  | _ :: _ :: _, _ :: _ :: _, _, _ => rfl

end Field

/-! ### All fields -/

namespace Fields

variable {αs : List Type} {fs : Fields αs} {kvs kvs' : List (String × Tree)}

/-- The values of the fields, each from its own key. -/
def values? {αs : List Type} : Fields αs → List (String × Tree) → Option (Values αs)
  | nil, _ => some ()
  | cons f more, kvs =>
    (f.value? (valuesAt kvs f.key)).bind fun a => (more.values? kvs).map fun vs => (a, vs)

/-- Every field can be read. -/
def Readable {αs : List Type} : Fields αs → List (String × Tree) → Prop
  | nil, _ => True
  | cons f more, kvs => f.Readable kvs ∧ more.Readable kvs

/-- The fields have these values. -/
def Given {αs : List Type} : Fields αs → List (String × Tree) → Values αs → Prop
  | nil, _, () => True
  | cons f more, kvs, (a, vs) => f.Given kvs a ∧ more.Given kvs vs

/-- Under each key of a field stand values that are taken for the same, in whatever order. -/
def Agree {αs : List Type} : Fields αs → List (String × Tree) → List (String × Tree) → Prop
  | nil, _, _ => True
  | cons f more, kvs, kvs' =>
    ((valuesAt kvs f.key).map f.codec.takes?).Perm ((valuesAt kvs' f.key).map f.codec.takes?) ∧
      more.Agree kvs kvs'

/-- The keys that a field has, with what stands under them. -/
def known (fs : Fields αs) (kvs : List (String × Tree)) : List (String × Tree) :=
  kvs.filter fun kv => kv.1 ∈ fs.keys

/-- The keys whose values may be null. -/
def nullable {αs : List Type} : Fields αs → List String
  | nil => []
  | cons f more => if (f.codec.takes? .null).isSome then f.key :: more.nullable else more.nullable

/-- A key that no field has changes nothing. -/
theorem found?_unknown {k : String} (h : k ∉ fs.keys) (t : Tree) (slots : Slots αs) :
    fs.found? k t slots = some slots := by
  induction fs with
  | nil => rfl
  | cons f more ih =>
    obtain ⟨found, slots⟩ := slots
    simp only [keys, List.mem_cons, not_or] at h
    rw [found?_other more h.1, ih h.2]
    rfl

theorem gather?_named_cons (fs : Fields αs) (k : String) (t : Tree) (kvs : List (String × Tree))
    (slots : Slots αs) : fs.gather? (named ((k, t) :: kvs)) slots =
      (fs.found? k t slots).bind fun slots => fs.gather? (named kvs) slots :=
  rfl

/-- The first field takes what stands under its key, and the others take the rest. -/
theorem gather?_cons {α : Type} {f : Field α} {more : Fields αs} (once : f.key ∉ more.keys)
    (kvs : List (String × Tree)) (found : Option α) (slots : Slots αs) :
    (cons f more).gather? (named kvs) (found, slots) =
      (f.fill? found (valuesAt kvs f.key)).bind fun found =>
        (more.gather? (named kvs) slots).map fun slots => (found, slots) := by
  induction kvs generalizing found slots with
  | nil => rfl
  | cons kv kvs ih =>
    obtain ⟨k, t⟩ := kv
    have step := gather?_named_cons (cons f more) k t kvs (found, slots)
    by_cases same : k = f.key
    · subst same
      rw [step, gather?_named_cons, valuesAt_cons_same, found?_unknown once, Option.bind_some]
      cases found with
      | some a =>
        rw [found?_twice]
        rfl
      | none =>
        rw [found?_same, Field.fill?]
        cases f.codec.takes? t with
        | none => rfl
        | some a => exact ih (some a) slots
    · rw [step, gather?_named_cons, valuesAt_cons_other same, found?_other more same]
      cases more.found? k t slots with
      | none => exact (Option.bind_fun_none _).symm
      | some slots => exact ih found slots

theorem toOption_complete_cons {α : Type} (f : Field α) (more : Fields αs) (found : Option α)
    (slots : Slots αs) : ((cons f more).complete (found, slots)).toOption =
      (found.or f.absent).bind fun a => (more.complete slots).toOption.map fun vs => (a, vs) := by
  rw [complete]
  cases found.or f.absent with
  | none => rfl
  | some a => cases complete more slots <;> rfl

/-- Finding the keys one after the other comes to asking each field for the values under its key. -/
theorem gather?_complete (distinct : fs.keys.Nodup) (kvs : List (String × Tree)) :
    ((fs.gather? (named kvs) fs.noSlots).bind fun slots =>
      (fs.complete slots).toOption) = fs.values? kvs := by
  induction fs with
  | nil =>
    induction kvs with
    | nil => rfl
    | cons kv kvs ih => exact ih
  | cons f more ih =>
    obtain ⟨once, distinct⟩ := List.nodup_cons.1 distinct
    rw [noSlots, gather?_cons once, values?, ← ih distinct, ← Field.fill?_or_absent]
    cases f.fill? none (valuesAt kvs f.key) with
    | none => rfl
    | some found =>
      cases more.gather? (named kvs) more.noSlots with
      | none => exact (Option.bind_fun_none _).symm
      | some slots => exact toOption_complete_cons f more found slots

/-- A record takes an object for the values of its fields. -/
theorem record?_object (distinct : fs.keys.Nodup) (kvs : List (String × Tree)) :
    fs.record? (.object (named kvs)) = fs.values? kvs :=
  gather?_complete distinct kvs

theorem readable_iff : fs.Readable kvs ↔ ∃ vs, fs.values? kvs = some vs := by
  induction fs with
  | nil => exact ⟨fun _ => ⟨(), rfl⟩, fun _ => trivial⟩
  | cons f more ih =>
    rw [Readable, Field.readable_iff, ih, values?]
    constructor
    · rintro ⟨⟨a, value⟩, vs, values⟩
      exact ⟨(a, vs), by rw [value, values]; rfl⟩
    · rintro ⟨vs, values⟩
      obtain ⟨a, value, values⟩ := Option.bind_eq_some_iff.1 values
      obtain ⟨vs, values, -⟩ := Option.map_eq_some_iff.1 values
      exact ⟨⟨a, value⟩, vs, values⟩

theorem values?_eq_some {vs : Values αs} :
    fs.values? kvs = some vs ↔ fs.Readable kvs ∧ fs.Given kvs vs := by
  induction fs with
  | nil => exact ⟨fun _ => ⟨trivial, trivial⟩, fun _ => rfl⟩
  | cons f more ih =>
    obtain ⟨a, vs⟩ := vs
    rw [values?, Readable, Given]
    constructor
    · intro values
      obtain ⟨b, value, values⟩ := Option.bind_eq_some_iff.1 values
      obtain ⟨ws, values, same⟩ := Option.map_eq_some_iff.1 values
      cases same
      obtain ⟨readable, given⟩ := Field.value?_eq_some.1 value
      obtain ⟨readable', given'⟩ := ih.1 values
      exact ⟨⟨readable, readable'⟩, given, given'⟩
    · rintro ⟨⟨readable, readable'⟩, given, given'⟩
      rw [Field.value?_eq_some.2 ⟨readable, given⟩, ih.2 ⟨readable', given'⟩]
      rfl

/-- Values that are taken for the same make no difference. -/
theorem Agree.values?_eq (h : fs.Agree kvs kvs') : fs.values? kvs = fs.values? kvs' := by
  induction fs with
  | nil => rfl
  | cons f more ih => rw [values?, values?, Field.value?_perm h.1, ih h.2]

theorem agree_of_perm (h : ∀ k ∈ fs.keys, (valuesAt kvs k).Perm (valuesAt kvs' k)) :
    fs.Agree kvs kvs' := by
  induction fs with
  | nil => trivial
  | cons f more ih =>
    exact ⟨(h f.key List.mem_cons_self).map _, ih fun k hk => h k (List.mem_cons_of_mem _ hk)⟩

theorem valuesAt_known {k : String} (h : k ∈ fs.keys) (kvs : List (String × Tree)) :
    valuesAt (fs.known kvs) k = valuesAt kvs k := by
  have both (kv : String × Tree) :
      (decide (kv.1 = k) && decide (kv.1 ∈ fs.keys)) = decide (kv.1 = k) := by
    by_cases same : kv.1 = k
    · simp [same, h]
    · simp [same]
  simp only [valuesAt, known, List.filter_filter, both]

/-- The order of the keys is of no account, nor are keys that no field has. -/
theorem agree_of_known (h : (fs.known kvs).Perm (fs.known kvs')) : fs.Agree kvs kvs' := by
  refine agree_of_perm fun k hk => ?_
  rw [← valuesAt_known hk kvs, ← valuesAt_known hk kvs']
  exact (h.filter _).map _

end Fields

/-! ### Nulls -/

namespace Codec

variable {α : Type} {αs : List Type} {c : Codec α}

@[simp] theorem text_null : text.takes? .null = none :=
  (takes?_eq (c := text) (Reader.means_textAs .text) .null).trans rfl

@[simp] theorem natural_null : natural.takes? .null = none :=
  (takes?_eq (c := natural) Reader.means_natural .null).trans rfl

@[simp] theorem time_null : time.takes? .null = none :=
  (takes?_eq (c := time) Reader.means_time .null).trans rfl

@[simp] theorem choice_null (name : α → String) (choose : String → Except Fault α) :
    (choice name choose).takes? .null = none :=
  (takes?_eq (c := choice name choose) (Reader.means_choice choose) .null).trans rfl

theorem optional_null (h : c.Exact) : (optional c).takes? .null = some none :=
  (takes?_eq (c := optional c) (Reader.means_optional h) .null).trans rfl

theorem list_null (h : c.Exact) : (list c).takes? .null = none :=
  (takes?_eq (c := list c) (Reader.means_list h) .null).trans rfl

theorem record_null {fs : Fields αs} (name : String) (isExact : fs.Exact) (split : α → Values αs)
    (build : Values αs → α) : (record name fs split build).takes? .null = none :=
  takes?_eq (c := record name fs split build) (f := fun t => (fs.record? t).map build)
    (means_record name isExact split build) .null

end Codec

/-! ### Codecs -/

namespace Codec

variable {α : Type} {αs : List Type}

/-- Objects are read by their keys. -/
structure ReadsByKey (c : Codec α) (fs : Fields αs) (split : α → Values αs) : Prop where
  /-- An object is accepted exactly if every field can be read. -/
  accepts : ∀ {kvs s}, IsObject kvs s → ((∃ a, c.decode s = .ok a) ↔ fs.Readable kvs)
  /-- Every field has what stands under its key, or the value that it has when it is left out. -/
  takes : ∀ {kvs s}, IsObject kvs s → ∀ a,
    (c.decode s = .ok a ↔ fs.Readable kvs ∧ fs.Given kvs (split a))
  /-- Blanks, escapes, the order of the keys and keys that no field has are of no account. -/
  reordered : ∀ {kvs kvs' s s'}, IsObject kvs s → IsObject kvs' s' →
    (fs.known kvs).Perm (fs.known kvs') → (c.decode s).toOption = (c.decode s').toOption
  /-- Nor is what stands under a key, as long as it is taken for the same. -/
  agreed : ∀ {kvs kvs' s s'}, IsObject kvs s → IsObject kvs' s' →
    fs.Agree kvs kvs' → (c.decode s).toOption = (c.decode s').toOption
  /-- What a value is taken for does not depend on how it is spelled. -/
  exact : c.Exact
  fields : fs.Exact
  /-- A null is not an object. -/
  null : c.takes? .null = none

/-- A record of exact codecs reads objects by their keys. -/
theorem readsByKey_record {name : String} {fs : Fields αs} {split : α → Values αs}
    {build : Values αs → α} (isExact : fs.Exact) (distinct : fs.keys.Nodup)
    (built : ∀ a, build (split a) = a) (parted : ∀ vs, split (build vs) = vs) :
    (record name fs split build).ReadsByKey fs split := by
  have decoded {kvs s} (object : IsObject kvs s) :
      ((record name fs split build).decode s).toOption = (fs.values? kvs).map build := by
    rw [toOption_decode (means_record name isExact split build) object,
      Fields.record?_object distinct]
  have agreed {kvs kvs' s s'} (object : IsObject kvs s) (object' : IsObject kvs' s')
      (agree : fs.Agree kvs kvs') : ((record name fs split build).decode s).toOption =
        ((record name fs split build).decode s').toOption := by
    rw [decoded object, decoded object', agree.values?_eq]
  refine ⟨fun {kvs s} object => ?_, fun {kvs s} object a => ?_,
    fun object object' known => agreed object object' (Fields.agree_of_known known), agreed,
    exact_record name isExact split build, isExact, record_null name isExact split build⟩
  · simp only [← Reader.toOption_eq_some, decoded object, Option.map_eq_some_iff,
      Fields.readable_iff]
    constructor
    · rintro ⟨a, vs, values, -⟩
      exact ⟨vs, values⟩
    · rintro ⟨vs, values⟩
      exact ⟨build vs, vs, values, rfl⟩
  · rw [← Reader.toOption_eq_some, decoded object, Option.map_eq_some_iff, ← Fields.values?_eq_some]
    constructor
    · rintro ⟨vs, values, rfl⟩
      rw [parted, values]
    · intro values
      exact ⟨split a, values, built a⟩

end Codec

end FleetHealth.Json

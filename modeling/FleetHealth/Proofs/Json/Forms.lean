import FleetHealth.Proofs.Json.Places
import FleetHealth.Proofs.Time.RoundTrip

/-!
The forms in which a value may be written.

A record is written as a list of its fields or as an object with their keys, and each record inside of
it again as one likes. A `Form` says which trees stand for a value (`Form.Writes`) and in which trees a
list stands for a record that has too few or too many elements for it (`Form.Misfit`); it does not
refer to a reader. A codec follows a form if it takes every tree of the form for the value that the
tree stands for, and no misfit for anything (`Codec.Follows`). Each way to build a codec keeps this.
-/

namespace FleetHealth.Json

open FleetHealth.Decimal
open FleetHealth.Time (Instant)

/-- The trees that stand for a value, and those that stand for none because of a list that does not
fit a record. -/
structure Form (α : Type) where
  Writes : α → Tree → Prop
  Misfit : Tree → Prop

/-- A form for each field. -/
def Forms : List Type → Type
  | [] => Unit
  | α :: αs => Form α × Forms αs

/-! ### Records -/

namespace Fields

/-- The number of elements that a list must have: only after the last field that must be there may
fields be left out. -/
def least {αs : List Type} : Fields αs → Nat
  | nil => 0
  | cons f more => if more.least = 0 ∧ f.absent.isSome then 0 else more.least + 1

/-- The elements are the values of the fields in order, where those at the end may be left out that
have the value for that case. -/
def InOrder {αs : List Type} : Fields αs → Forms αs → Values αs → List Tree → Prop
  | nil, (), (), ts => ts = []
  | cons f more, (_, forms), (a, vs), [] => f.absent = some a ∧ more.InOrder forms vs []
  | cons _ more, (form, forms), (a, vs), t :: ts => form.Writes a t ∧ more.InOrder forms vs ts

/-- The keys have the values of the fields, where any field may be left out that has the value for
that case. -/
def ByKey {αs : List Type} : Fields αs → Forms αs → Values αs → List (String × Tree) → Prop
  | nil, (), (), kvs => kvs = []
  | cons f more, (form, forms), (a, vs), kvs =>
    (∃ t others, kvs = (f.key, t) :: others ∧ form.Writes a t ∧ more.ByKey forms vs others) ∨
      f.absent = some a ∧ more.ByKey forms vs kvs

/-- The tree is a list of the fields or an object with their keys, in whatever order. -/
inductive Written {αs : List Type} (fs : Fields αs) (forms : Forms αs) (vs : Values αs) : Tree → Prop
  | list {ts : List Tree} (elements : fs.InOrder forms vs ts) : Written fs forms vs (.list ts)
  | object {kvs kvs' : List (String × Tree)} (fields : fs.ByKey forms vs kvs)
    (order : kvs.Perm kvs') : Written fs forms vs (.object (named kvs'))

/-- At one of the fields, the first of them at this place, stands a misfit. -/
def MisfitAt {αs : List Type} : Fields αs → Forms αs → Nat → Tree → Prop
  | nil, (), _, _ => False
  | cons f more, (form, forms), place, t =>
    (∃ u ∈ t.field f.key place, form.Misfit u) ∨ more.MisfitAt forms (place + 1) t

/-- The tree is a list that ends before a field that must be there or goes on after the last field,
or a field has a misfit. -/
inductive Misfit {αs : List Type} (fs : Fields αs) (forms : Forms αs) : Tree → Prop
  | short {ts : List Tree} (few : ts.length < fs.least) : Misfit fs forms (.list ts)
  | long {ts : List Tree} (many : fs.count < ts.length) : Misfit fs forms (.list ts)
  | inside {t : Tree} (field : fs.MisfitAt forms 0 t) : Misfit fs forms t

end Fields

namespace Form

variable {α : Type} {αs : List Type}

/-- One tree stands for each value, and no record is inside of it. -/
def plain (write : α → Tree) : Form α where
  Writes a t := t = write a
  Misfit _ := False

def text : Form String := plain fun s => .text (some s)

/-- A number is written in its digits. -/
def natural : Form UInt64 := plain fun n => .number ⟨false, digits n.toNat, [], none⟩

def choice (name : α → String) : Form α := plain fun a => .text (some (name a))

/-- Any text of a time stands for it. -/
def time : Form Instant where
  Writes i t := ∃ s, i.Spelled s ∧ t = .text (some (String.ofList s))
  Misfit _ := False

/-- A null stands for no value. -/
def optional (form : Form α) : Form (Option α) where
  Writes
    | none, t => t = .null
    | some a, t => form.Writes a t
  Misfit t := t ≠ .null ∧ form.Misfit t

/-- Lists are written element by element. -/
def list (form : Form α) : Form (List α) where
  Writes as t := ∃ ts, t = .list ts ∧ List.Forall₂ form.Writes as ts
  Misfit t := ∃ u ∈ t.elements, form.Misfit u

def record (fs : Fields αs) (forms : Forms αs) (split : α → Values αs) : Form α where
  Writes a t := fs.Written forms (split a) t
  Misfit t := fs.Misfit forms t

end Form

/-! ### Values that have a spelling -/

theorem Tree.Document.spells {t : Tree} {s : String} (h : t.Document s) : t.Spells := by
  obtain ⟨_, text, _, -, -, spelled, -⟩ := h
  exact ⟨text, spelled⟩

theorem Tree.Spells.document {t : Tree} (h : t.Spells) : t.Document (String.ofList t.print) := by
  obtain ⟨_, spelled⟩ := h
  exact spelled.document

@[simp] theorem Tree.spells_text (t : Option String) : (Tree.text t).Spells :=
  ⟨_, .text (spelledText_printBody t)⟩

theorem Tree.spells_digits (n : Nat) : (Tree.number ⟨false, digits n, [], none⟩).Spells := by
  have all : AreDigits (digits n) := ⟨digits_ne_nil n, fun _ hc => isDigit_of_mem_digits hc⟩
  have zero : '0' ∈ (digits n).head? → digits n = ['0'] := fun first => by
    rw [eq_zero_of_head?_digits first, digits_zero]
  exact ⟨_, .number (.mk all zero .none .none)⟩

@[simp] theorem Tree.spells_list {ts : List Tree} :
    (Tree.list ts).Spells ↔ ∀ t ∈ ts, t.Spells := by
  refine ⟨fun h t ht => h.elements ht, fun h => ?_⟩
  have elements (first : Bool) : ∃ s, SpelledElements first ts s := by
    induction ts generalizing first with
    | nil => exact ⟨[], .nil⟩
    | cons t ts ih =>
      obtain ⟨⟨s, here⟩, others⟩ := List.forall_mem_cons.1 h
      obtain ⟨more, others⟩ := ih others false
      exact ⟨_, .cons (lead_lead first) here others⟩
  obtain ⟨s, elements⟩ := elements true
  exact ⟨_, .list (w := []) elements .nil⟩

@[simp] theorem Tree.spells_object {kvs : List (Option String × Tree)} :
    (Tree.object kvs).Spells ↔ ∀ kv ∈ kvs, kv.2.Spells := by
  constructor
  · rintro ⟨_, spelled⟩
    cases spelled with
    | object fields _ => exact fields.spells
  · intro h
    have fields (first : Bool) : ∃ s, SpelledFields first kvs s := by
      induction kvs generalizing first with
      | nil => exact ⟨[], .nil⟩
      | cons kv kvs ih =>
        obtain ⟨⟨s, here⟩, others⟩ := List.forall_mem_cons.1 h
        obtain ⟨more, others⟩ := ih others false
        exact ⟨_, @SpelledFields.cons _ _ _ _ _ _ [] [] _ _ (lead_lead first)
          (spelledText_printBody kv.1) .nil .nil here others⟩
    obtain ⟨s, fields⟩ := fields true
    exact ⟨_, .object (w := []) fields .nil⟩

theorem Tree.spells_named {kvs : List (String × Tree)} :
    (Tree.object (named kvs)).Spells ↔ ∀ kv ∈ kvs, kv.2.Spells := by
  rw [spells_object, named, List.forall_mem_map]

/-! ### Codecs that follow a form -/

/-- The codec takes what the form writes for the value that it was written for, and no misfits. -/
structure Codec.Follows {α : Type} (c : Codec α) (form : Form α) : Prop where
  exact : c.Exact
  covers : ∀ a, ∃ t : Tree, t.Spells ∧ form.Writes a t
  takes : ∀ {a t}, t.Spells → form.Writes a t → c.takes? t = some a
  fits : ∀ {a t}, t.Spells → c.takes? t = some a → ¬ form.Misfit t

/-- The codec of each field follows its form. -/
def Fields.Follow {αs : List Type} : Fields αs → Forms αs → Prop
  | nil, () => True
  | cons f more, (form, forms) => f.codec.Follows form ∧ more.Follow forms

namespace Codec

variable {α : Type} {c : Codec α} {form : Form α}

theorem follows_text : text.Follows .text where
  exact := exact_text
  covers s := ⟨_, Tree.spells_text (some s), rfl⟩
  takes := by
    rintro s _ ⟨_, spelled⟩ rfl
    exact takes?_eq (c := text) (Reader.means_textAs .text) spelled
  fits _ _ := id

theorem follows_natural : natural.Follows .natural where
  exact := exact_natural
  covers n := ⟨_, Tree.spells_digits n.toNat, rfl⟩
  takes := by
    rintro n _ ⟨_, spelled⟩ rfl
    rw [takes?_eq (c := natural) Reader.means_natural spelled, Tree.natural?,
      Literal.value_digits n.toNat_lt_size]
    simp
  fits _ _ := id

theorem follows_time : time.Follows .time where
  exact := exact_time
  covers i := ⟨_, Tree.spells_text (some (String.ofList i.write)), _, i.spelled_write, rfl⟩
  takes := by
    rintro i _ ⟨_, spelled⟩ ⟨s, reading, rfl⟩
    rw [takes?_eq (c := time) Reader.means_time spelled, Tree.time?, Tree.text?, Option.bind_some,
      String.toList_ofList, Time.readInstant_spelled reading]
    rfl
  fits _ _ := id

/-- Names stand for the values that are chosen by them. -/
theorem follows_choice {name : α → String} {choose : String → Except Fault α}
    (chosen : ∀ a, choose (name a) = .ok a) : (choice name choose).Follows (.choice name) where
  exact := exact_choice name choose
  covers a := ⟨_, Tree.spells_text (some (name a)), rfl⟩
  takes := by
    rintro a _ ⟨_, spelled⟩ rfl
    rw [takes?_eq (c := choice name choose) (Reader.means_choice choose) spelled, Tree.name?,
      Option.bind_some, chosen]
    rfl
  fits _ _ := id

/-- Only a codec that does not take a null can tell a value from none. -/
theorem Follows.optional (h : c.Follows form) (something : c.takes? .null = none) :
    (optional c).Follows (.optional form) := by
  have other {t : Tree} (spells : t.Spells) (value : t ≠ .null) :
      (Codec.optional c).takes? t = (c.takes? t).map some := by
    obtain ⟨_, spelled⟩ := spells
    rw [takes?_eq (c := .optional c) (Reader.means_optional h.exact) spelled]
    cases t with
    | null => exact absurd rfl value
    | boolean | number | text | list | object => rfl
  refine ⟨h.exact.optional, ?_, ?_, ?_⟩
  · intro a
    cases a with
    | none => exact ⟨.null, ⟨_, .null⟩, rfl⟩
    | some a => exact h.covers a
  · intro a t spells written
    cases a with
    | none =>
      obtain rfl : t = .null := written
      exact optional_null h.exact
    | some a =>
      have taken := h.takes spells written
      -- what the form writes for a value is taken, so it cannot be a null
      have value : t ≠ .null := by
        rintro rfl
        cases something.symm.trans taken
      rw [other spells value, taken]
      rfl
  · rintro a t spells taken ⟨value, misfit⟩
    rw [other spells value] at taken
    obtain ⟨a, taken, -⟩ := Option.map_eq_some_iff.1 taken
    exact h.fits spells taken misfit

theorem Follows.list (h : c.Follows form) : (list c).Follows (.list form) := by
  refine ⟨h.exact.list, ?_, ?_, ?_⟩
  · intro as
    have elements : ∃ ts : List Tree, (∀ t ∈ ts, t.Spells) ∧ List.Forall₂ form.Writes as ts := by
      induction as with
      | nil => exact ⟨[], nofun, .nil⟩
      | cons a as ih =>
        obtain ⟨t, spells, first⟩ := h.covers a
        obtain ⟨ts, others, written⟩ := ih
        exact ⟨t :: ts, List.forall_mem_cons.2 ⟨spells, others⟩, .cons first written⟩
    obtain ⟨ts, spells, written⟩ := elements
    exact ⟨.list ts, Tree.spells_list.2 spells, ts, rfl, written⟩
  · rintro as _ spells ⟨ts, rfl, written⟩
    have elements : ∀ t ∈ ts, t.Spells := fun t ht => spells.elements ht
    obtain ⟨_, spelled⟩ := spells
    rw [takes?_eq (c := .list c) (Reader.means_list h.exact) spelled, Tree.list?]
    clear spelled
    induction written with
    | nil => rfl
    | cons first _ ih =>
      obtain ⟨here, elements⟩ := List.forall_mem_cons.1 elements
      rw [List.mapM_cons, h.takes here first, ih elements]
      rfl
  · intro as t spells taken misfit
    have fits : ∀ u ∈ t.elements, ∀ a, c.takes? u = some a → (False ↔ form.Misfit u) :=
      fun u hu a value => iff_of_false id (h.fits (spells.elements hu) value)
    obtain ⟨_, -, impossible⟩ := (exists_iff h.exact spells taken fits).2 misfit
    exact impossible

end Codec

/-! ### Records follow -/

namespace Fields

variable {αs : List Type} {fs : Fields αs} {forms : Forms αs} {vs : Values αs} {ts : List Tree}
  {kvs : List (String × Tree)}

theorem Follow.exact (h : fs.Follow forms) : fs.Exact := by
  induction fs with
  | nil => trivial
  | cons f more ih =>
    obtain ⟨form, forms⟩ := forms
    exact ⟨h.1.exact, ih h.2⟩

/-- All fields may be written in order. -/
theorem Follow.exists_inOrder (h : fs.Follow forms) (vs : Values αs) :
    ∃ ts : List Tree, (∀ t ∈ ts, t.Spells) ∧ fs.InOrder forms vs ts := by
  induction fs with
  | nil => exact ⟨[], nofun, rfl⟩
  | cons f more ih =>
    obtain ⟨form, forms⟩ := forms
    obtain ⟨a, vs⟩ := vs
    obtain ⟨t, spells, first⟩ := h.1.covers a
    obtain ⟨ts, others, written⟩ := ih h.2 vs
    exact ⟨t :: ts, List.forall_mem_cons.2 ⟨spells, others⟩, first, written⟩

/-- All fields may be written under their keys. -/
theorem Follow.exists_byKey (h : fs.Follow forms) (vs : Values αs) :
    ∃ kvs : List (String × Tree), (∀ kv ∈ named kvs, kv.2.Spells) ∧ fs.ByKey forms vs kvs := by
  induction fs with
  | nil => exact ⟨[], nofun, rfl⟩
  | cons f more ih =>
    obtain ⟨form, forms⟩ := forms
    obtain ⟨a, vs⟩ := vs
    obtain ⟨t, spells, first⟩ := h.1.covers a
    obtain ⟨kvs, others, written⟩ := ih h.2 vs
    exact ⟨(f.key, t) :: kvs, List.forall_mem_cons.2 ⟨spells, others⟩,
      .inl ⟨t, kvs, rfl, first, written⟩⟩

/-- A list of the fields is taken in order. -/
theorem Follow.inOrder? (h : fs.Follow forms) (spells : ∀ t ∈ ts, t.Spells)
    (written : fs.InOrder forms vs ts) : fs.inOrder? ts = some (vs, []) := by
  induction fs generalizing ts with
  | nil =>
    obtain rfl : ts = [] := written
    rfl
  | cons f more ih =>
    obtain ⟨form, forms⟩ := forms
    obtain ⟨a, vs⟩ := vs
    obtain ⟨follows, others⟩ := h
    cases ts with
    | nil => -- the elements are used up, and so it stays for the fields that are left
      obtain ⟨absent, written⟩ := written
      rw [Fields.inOrder?, absent, Option.bind_some, ih others spells written]
      rfl
    | cons t ts =>
      obtain ⟨first, written⟩ := written
      obtain ⟨here, spells⟩ := List.forall_mem_cons.1 spells
      rw [Fields.inOrder?, follows.takes here first, Option.bind_some, ih others spells written]
      rfl

theorem ByKey.mem_keys (written : fs.ByKey forms vs kvs) {k : String} (h : k ∈ kvs.map Prod.fst) :
    k ∈ fs.keys := by
  induction fs generalizing kvs with
  | nil =>
    obtain rfl : kvs = [] := written
    cases h
  | cons f more ih =>
    obtain ⟨form, forms⟩ := forms
    obtain ⟨a, vs⟩ := vs
    obtain ⟨t, others, rfl, -, written⟩ | ⟨-, written⟩ := written
    · obtain rfl | h := List.mem_cons.1 h
      · exact List.mem_cons_self
      · exact List.mem_cons_of_mem _ (ih written h)
    · exact List.mem_cons_of_mem _ (ih written h)

/-- A key that no field has changes nothing. -/
theorem values?_unknown {k : String} (h : k ∉ fs.keys) (t : Tree) :
    fs.values? ((k, t) :: kvs) = fs.values? kvs := by
  refine (agree_of_perm fun k' hk' => ?_).values?_eq
  have other : k ≠ k' := fun same => h (same ▸ hk')
  rw [valuesAt_cons_other other]

/-- The order of the keys is of no account. -/
theorem values?_perm {kvs' : List (String × Tree)} (order : kvs.Perm kvs') :
    fs.values? kvs = fs.values? kvs' :=
  (agree_of_perm fun _ _ => (order.filter _).map _).values?_eq

/-- The keys of the fields are taken for their values. -/
theorem Follow.values? (h : fs.Follow forms) (distinct : fs.keys.Nodup)
    (spells : ∀ kv ∈ kvs, kv.2.Spells) (written : fs.ByKey forms vs kvs) :
    fs.values? kvs = some vs := by
  induction fs generalizing kvs with
  | nil => rfl
  | cons f more ih =>
    obtain ⟨form, forms⟩ := forms
    obtain ⟨a, vs⟩ := vs
    obtain ⟨follows, others⟩ := h
    obtain ⟨once, distinct⟩ := List.nodup_cons.1 distinct
    -- the other fields have other keys, so only the first field may have written its own
    have alone {kvs} (written : more.ByKey forms vs kvs) : valuesAt kvs f.key = [] :=
      valuesAt_eq_nil.2 fun found => once (written.mem_keys found)
    obtain ⟨t, kvs, rfl, first, written⟩ | ⟨absent, written⟩ := written
    · obtain ⟨here, spells⟩ := List.forall_mem_cons.1 spells
      rw [Fields.values?, valuesAt_cons_same, alone written, Field.value?, follows.takes here first,
        values?_unknown once, ih others distinct spells written]
      rfl
    · rw [Fields.values?, alone written, Field.value?, absent, ih others distinct spells written]
      rfl

/-- A list that is taken has neither too few elements nor too many. -/
theorem length_of_inOrder? (taken : fs.inOrder? ts = some (vs, [])) :
    fs.least ≤ ts.length ∧ ts.length ≤ fs.count := by
  induction fs generalizing ts with
  | nil =>
    cases taken
    exact ⟨le_rfl, le_rfl⟩
  | cons f more ih =>
    cases ts with
    | nil =>
      obtain ⟨a, absent, others⟩ := Option.bind_eq_some_iff.1 taken
      obtain ⟨⟨ws, _⟩, rest, same⟩ := Option.map_eq_some_iff.1 others
      cases same
      -- the fields that are left have done without elements
      have nothing : more.least = 0 := Nat.le_zero.1 (ih rest).1
      simp [least, nothing, absent]
    | cons t ts =>
      obtain ⟨a, -, others⟩ := Option.bind_eq_some_iff.1 taken
      obtain ⟨⟨ws, _⟩, rest, same⟩ := Option.map_eq_some_iff.1 others
      cases same
      obtain ⟨low, high⟩ := ih rest
      rw [least, count, List.length_cons]
      split <;> omega

theorem length_of_record? (taken : fs.record? (.list ts) = some vs) :
    fs.least ≤ ts.length ∧ ts.length ≤ fs.count := by
  rw [record?] at taken
  split at taken
  · next ws values =>
    cases taken
    exact length_of_inOrder? values
  · cases taken

/-- Where the fields have values, none of them has a misfit. -/
theorem Holds.not_misfitAt {t : Tree} {place : Nat} (holds : fs.Holds place t vs)
    (h : fs.Follow forms) (spells : t.Spells) : ¬ fs.MisfitAt forms place t := by
  induction fs generalizing place with
  | nil => exact id
  | cons f more ih =>
    obtain ⟨form, forms⟩ := forms
    obtain ⟨a, vs⟩ := vs
    obtain ⟨value, holds⟩ := holds
    obtain ⟨follows, others⟩ := h
    have fits : ∀ u ∈ t.field f.key place, ∀ a, f.codec.takes? u = some a →
        (False ↔ form.Misfit u) :=
      fun u hu a taken => iff_of_false id (follows.fits (spells.field hu) taken)
    rintro (here | elsewhere)
    · exact (Field.exists_iff value (fun _ _ => not_false) fits).2 here
    · exact ih holds others elsewhere

end Fields

namespace Codec

variable {α : Type} {αs : List Type} {fs : Fields αs} {forms : Forms αs} {split : α → Values αs}
  {build : Values αs → α} {c : Codec α} {form : Form α}

theorem takes?_record (name : String) (isExact : fs.Exact) {t : Tree} (spells : t.Spells) :
    (record name fs split build).takes? t = (fs.record? t).map build := by
  obtain ⟨_, spelled⟩ := spells
  exact takes?_eq (means_record name isExact split build) spelled

theorem follows_record {name : String} (h : fs.Follow forms) (distinct : fs.keys.Nodup)
    (built : ∀ a, build (split a) = a) :
    (record name fs split build).Follows (.record fs forms split) := by
  refine ⟨exact_record name h.exact split build, ?_, ?_, ?_⟩
  · intro a
    obtain ⟨ts, spells, written⟩ := h.exists_inOrder (split a)
    exact ⟨.list ts, Tree.spells_list.2 spells, .list written⟩
  · intro a t spells written
    have values : fs.record? t = some (split a) := by
      cases written with
      | list elements =>
        rw [Fields.record?, h.inOrder? (Tree.spells_list.1 spells) elements]
      | object fields order =>
        have parts := Tree.spells_named.1 spells
        rw [Fields.record?_object distinct, ← Fields.values?_perm order]
        exact h.values? distinct (fun kv hkv => parts kv (order.mem_iff.1 hkv)) fields
    rw [takes?_record name h.exact spells, values, Option.map_some, built]
  · intro a t spells taken misfit
    rw [takes?_record name h.exact spells] at taken
    obtain ⟨vs, values, -⟩ := Option.map_eq_some_iff.1 taken
    cases misfit with
    | short few =>
      have bounds := Fields.length_of_record? values
      omega
    | long many =>
      have bounds := Fields.length_of_record? values
      omega
    | inside field =>
      exact (Fields.holds_of_record? distinct values).not_misfitAt h spells field

/-! ### Documents -/

/-- What stands for a value is decoded as that value. -/
theorem Follows.decode_eq {a : α} {t : Tree} {s : String} (h : c.Follows form)
    (written : form.Writes a t) (document : t.Document s) : c.decode s = .ok a := by
  rw [← Reader.toOption_eq_some, toOption_decode h.exact document]
  exact h.takes document.spells written

/-- Every value may be written as a list and as an object; however the records inside of it are
written, it is decoded from each document that stands for it, and no document with a list that does
not fit is decoded. -/
structure DecodesForms (c : Codec α) (form : Form α) : Prop where
  listed : ∀ a, ∃ ts s, form.Writes a (.list ts) ∧ (Tree.list ts).Document s
  keyed : ∀ a, ∃ kvs s, form.Writes a (.object kvs) ∧ (Tree.object kvs).Document s
  decodes : ∀ {a t s}, form.Writes a t → t.Document s → c.decode s = .ok a
  rejects : ∀ {t s}, form.Misfit t → t.Document s → ∀ a, c.decode s ≠ .ok a

theorem decodesForms_record {name : String} (h : fs.Follow forms) (distinct : fs.keys.Nodup)
    (built : ∀ a, build (split a) = a) :
    (record name fs split build).DecodesForms (.record fs forms split) := by
  have follows : (record name fs split build).Follows (.record fs forms split) :=
    follows_record h distinct built
  refine ⟨fun a => ?_, fun a => ?_, follows.decode_eq, fun misfit document a decoded => ?_⟩
  · obtain ⟨ts, spells, written⟩ := h.exists_inOrder (split a)
    exact ⟨ts, _, .list written, (Tree.spells_list.2 spells).document⟩
  · obtain ⟨kvs, spells, written⟩ := h.exists_byKey (split a)
    exact ⟨named kvs, _, .object written (.refl kvs), (Tree.spells_object.2 spells).document⟩
  · rw [← Reader.toOption_eq_some, toOption_decode follows.exact document] at decoded
    exact follows.fits document.spells decoded misfit

end Codec

end FleetHealth.Json

import FleetHealth.Proofs.Json.Record

/-!
Codecs whose reader undoes their writer.

A codec is lawful if its reader takes back every value from any layout of what is written for it.
Each way to build a codec keeps the law, and a lawful codec makes the round trip through a document
(`Lawful.roundTrips`).
-/

namespace FleetHealth.Json

open FleetHealth.Text

namespace Codec

variable {α : Type} {c : Codec α}

/-- Every value is read back from any layout of what is written for it. -/
def Lawful (c : Codec α) : Prop := ∀ a, c.read.Reads (c.write a) a

theorem lawful_text : text.Lawful := Reader.reads_textAs .text

theorem lawful_natural : natural.Lawful := Reader.reads_natural

theorem lawful_time : time.Lawful := Reader.reads_time

/-- Names are read back if each value is chosen by its name. -/
theorem lawful_choice {name : α → String} {choose : String → Except Fault α}
    (h : ∀ a, choose (name a) = .ok a) : (choice name choose).Lawful :=
  fun a => Reader.reads_choice (h a)

/-- Only a codec that never writes a null can tell a value from none. -/
theorem Lawful.optional (h : c.Lawful) (something : ∀ a, c.write a ≠ .null) :
    (optional c).Lawful := by
  intro a
  cases a with
  | none => exact Reader.reads_none c.read
  | some a => exact Reader.reads_some (something a) (h a)

theorem Lawful.list (h : c.Lawful) : (list c).Lawful := by
  intro as
  refine Reader.reads_list ?_
  rw [List.forall₂_map_left_iff]
  exact List.forall₂_same.2 fun a _ => h a

end Codec

namespace Fields

/-- All fields have lawful codecs. -/
def Lawful {αs : List Type} : Fields αs → Prop
  | nil => True
  | cons f more => f.codec.Lawful ∧ more.Lawful

variable {αs : List Type}

theorem keys_write (fs : Fields αs) (vs : Values αs) : (fs.write vs).map Prod.fst = fs.keys := by
  induction fs with
  | nil => rfl
  | cons f more ih =>
    obtain ⟨a, vs⟩ := vs
    rw [write, List.map_cons, ih, keys]

/-- What is written for a field is taken by it. -/
theorem Lawful.takes_write {fs : Fields αs} (h : fs.Lawful) (distinct : fs.keys.Nodup)
    {vs : Values αs} : ∀ f ∈ fs.write vs, fs.Takes vs f.1 f.2 := by
  induction fs with
  | nil => exact fun _ hf => (List.not_mem_nil hf).elim
  | cons f more ih =>
    obtain ⟨a, vs⟩ := vs
    obtain ⟨lawful, others⟩ := h
    obtain ⟨once, distinct⟩ := List.nodup_cons.1 distinct
    intro g hg
    rcases List.mem_cons.1 hg with rfl | hg
    · rw [Takes, if_pos rfl]
      exact lawful a
    · have key : g.1 ∈ more.keys := keys_write more vs ▸ List.mem_map_of_mem hg
      have other : g.1 ≠ f.key := fun same => once (same ▸ key)
      rw [Takes, if_neg other]
      exact ih others distinct g hg

theorem covered_of_keys {fs : Fields αs} {found : List String} (h : ∀ k ∈ fs.keys, k ∈ found)
    (vs : Values αs) : fs.Covered found vs := by
  induction fs with
  | nil => trivial
  | cons f more ih =>
    obtain ⟨a, vs⟩ := vs
    exact ⟨.inl (h f.key List.mem_cons_self), ih (fun k hk => h k (List.mem_cons_of_mem _ hk)) vs⟩

end Fields

namespace Codec

variable {α : Type} {c : Codec α}

/-- A record is read back if its fields are, and have different keys. -/
theorem lawful_record {αs : List Type} {name : String} {fs : Fields αs} {split : α → Values αs}
    {build : Values αs → α} (lawful : fs.Lawful) (distinct : fs.keys.Nodup)
    (built : ∀ a, build (split a) = a) : (record name fs split build).Lawful := by
  intro a w s r blank laid settled
  have keys := fs.keys_write (split a)
  have read : (Reader.record name fs).run (w ++ (s ++ r)) = .ok (split a, r) := by
    refine Reader.reads_record name distinct (lawful.takes_write distinct) ?_ ?_ blank laid settled
    · rwa [keys]
    · rw [keys]
      exact Fields.covered_of_keys (fun k hk => List.mem_reverse.2 hk) (split a)
  rw [record, Reader.run_map, Reader.run_bind_ok read, built]
  rfl

/-- A document is read back, whatever its layout. -/
theorem Lawful.decode_encode (h : c.Lawful) (layout : Layout) (a : α) :
    c.decode (c.encode layout a) = .ok a := by
  have read := h a (w := []) (r := []) .nil (Value.laid_write layout (c.write a)) .nil
  rw [List.nil_append, List.append_nil] at read
  rw [decode, encode, Reader.document, read]
  rfl

/-- Reading undoes writing; and a text that is accepted, written again, is read as the same value
and written again as the same text. -/
structure RoundTrips (c : Codec α) : Prop where
  decode_encode : ∀ layout a, c.decode (c.encode layout a) = .ok a
  rewritten : ∀ layout s a, c.decode s = .ok a →
    c.decode (c.encode layout a) = c.decode s ∧
      (c.decode (c.encode layout a)).map (c.encode layout) = .ok (c.encode layout a)

theorem Lawful.roundTrips (h : c.Lawful) : c.RoundTrips where
  decode_encode := h.decode_encode
  rewritten layout s a read := by
    rw [h.decode_encode, read]
    exact ⟨rfl, rfl⟩

end Codec

end FleetHealth.Json

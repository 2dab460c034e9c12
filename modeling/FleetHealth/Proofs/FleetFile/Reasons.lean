import FleetHealth.Proofs.Composite.Format
import FleetHealth.Proofs.Json.Accepted
import FleetHealth.Proofs.Json.Places
import FleetHealth.Proofs.Pass.Contents

/-!
The reasons that are written in a fleet file.

`FleetFile.reasons` lists them as they are written, whatever they mean. A member of the file is
failing exactly if one of the two names of failure is among them (`FleetFile.fails_iff`); so all else
that a file can hold is of no account for that.
-/

namespace FleetHealth

open FleetHealth.Json

/-! ### What is written -/

/-- The members of a fleet file, as they are written. -/
def FleetFile.written (t : Tree) : List Tree :=
  (t.field "members" 0).flatMap Tree.elements

/-- The conditions of a member, as they are written. -/
def Member.written (t : Tree) : List Tree :=
  (t.field "status" 1).flatMap fun s => (s.field "conditions" 0).flatMap Tree.elements

/-- The reasons of a fleet file, as they are written: each is a text, or the only key of an object
that holds a null. -/
def FleetFile.reasons (t : Tree) : List String :=
  (written t).flatMap fun m => (Member.written m).flatMap fun c =>
    (c.field "reason" 2).filterMap Tree.name?

/-! ### What it is taken for -/

/-- A reason with a meaning of its own has but one name. -/
theorem Reason.ofName_eq_iff {r : Reason} (h : r ∈ known) {s : String} :
    ofName s = r ↔ s = r.name := by
  constructor
  · intro named
    cases found : known.find? (·.name == s) with
    | none =>
      rw [ofName, found] at named
      subst named
      exact absurd h (by decide)
    | some r' =>
      rw [ofName, found] at named
      subst named
      exact (by simpa using List.find?_some found : r'.name = s).symm
  · rintro rfl
    exact ofName_name r

/-- The name is one of the two that mean failure. -/
def Reason.NamesFailure (s : String) : Prop := s = "SourceFailed" ∨ s = "ApplyFailed"

section

variable {α β : Type} {l : List α} {P : β → Prop}

theorem exists_mem_flatMap {f : α → List β} :
    (∃ b ∈ l.flatMap f, P b) ↔ ∃ a ∈ l, ∃ b ∈ f a, P b := by
  constructor
  · rintro ⟨b, hb, holds⟩
    obtain ⟨a, ha, hb⟩ := List.mem_flatMap.1 hb
    exact ⟨a, ha, b, hb, holds⟩
  · rintro ⟨a, ha, b, hb, holds⟩
    exact ⟨b, List.mem_flatMap.2 ⟨a, ha, hb⟩, holds⟩

theorem exists_mem_filterMap {f : α → Option β} :
    (∃ b ∈ l.filterMap f, P b) ↔ ∃ a ∈ l, ∃ b, f a = some b ∧ P b := by
  constructor
  · rintro ⟨b, hb, holds⟩
    obtain ⟨a, ha, hb⟩ := List.mem_filterMap.1 hb
    exact ⟨a, ha, b, hb, holds⟩
  · rintro ⟨a, ha, b, hb, holds⟩
    exact ⟨b, List.mem_filterMap.2 ⟨a, ha, hb⟩, holds⟩

end

section

variable {t : Tree}

theorem Reason.fails_iff {r : Reason} (spells : t.Spells) (taken : codec.takes? t = some r) :
    (r = .sourceFailed ∨ r = .applyFailed) ↔ ∃ s, t.name? = some s ∧ NamesFailure s := by
  obtain ⟨text, spelled⟩ := spells
  rw [Codec.takes?_eq (c := codec) (Reader.means_choice fun s => .ok (ofName s)) spelled] at taken
  obtain ⟨s, name, same⟩ := Option.bind_eq_some_iff.1 taken
  obtain rfl : ofName s = r := Option.some.inj same
  rw [ofName_eq_iff (by decide), ofName_eq_iff (by decide)]
  constructor
  · intro failure
    exact ⟨s, name, failure⟩
  · rintro ⟨s', name', failure⟩
    obtain rfl := Option.some.inj (name.symm.trans name')
    exact failure

theorem Condition.fails_iff {c : Condition} (spells : t.Spells)
    (taken : codec.takes? t = some c) :
    c.Fails ↔ ∃ r ∈ t.field "reason" 2, ∃ s, r.name? = some s ∧ Reason.NamesFailure s := by
  obtain ⟨⟨kind, status, reason, message, ⟨⟩⟩, rfl, -, -, value, -⟩ :=
    Codec.holds_of_takes? codec_readsByKey.fields (by decide) spells taken
  refine Field.exists_iff (P := fun r => r = .sourceFailed ∨ r = .applyFailed) value nofun ?_
  intro u hu r taken
  exact Reason.fails_iff (spells.field hu) taken

theorem Member.Status.fails_iff {status : Member.Status} (spells : t.Spells)
    (taken : codec.takes? t = some status) :
    (∃ c ∈ status.conditions, c.Fails) ↔ ∃ cs ∈ t.field "conditions" 0, ∃ c ∈ cs.elements,
      ∃ r ∈ c.field "reason" 2, ∃ s, r.name? = some s ∧ Reason.NamesFailure s := by
  obtain ⟨⟨conditions, ⟨⟩⟩, rfl, value, -⟩ :=
    Codec.holds_of_takes? codec_readsByKey.fields (by decide) spells taken
  refine Field.exists_iff (P := fun cs => ∃ c ∈ cs, c.Fails) value ?_ ?_
  · intro cs absent
    cases absent
    simp
  · intro u hu cs taken
    refine Codec.exists_iff Condition.codec_readsByKey.exact (spells.field hu) taken ?_
    intro v hv c taken
    exact Condition.fails_iff ((spells.field hu).elements hv) taken

theorem Member.fails_iff {m : Member} (spells : t.Spells) (taken : codec.takes? t = some m) :
    (∃ c ∈ m.status.conditions, c.Fails) ↔ ∃ c ∈ written t,
      ∃ r ∈ c.field "reason" 2, ∃ s, r.name? = some s ∧ Reason.NamesFailure s := by
  obtain ⟨⟨name, status, ⟨⟩⟩, rfl, -, value, -⟩ :=
    Codec.holds_of_takes? codec_readsByKey.fields (by decide) spells taken
  simp only [written, exists_mem_flatMap]
  refine Field.exists_iff (P := fun s => ∃ c ∈ s.conditions, c.Fails) value ?_ ?_
  · intro status absent
    cases absent
    simp
  · intro u hu status taken
    exact Status.fails_iff (spells.field hu) taken

/-- A fleet file is a document, whatever it leaves out and in whatever form its records are. -/
theorem FleetFile.exists_document {f : FleetFile} {text : String}
    (decoded : codec.decode text = .ok f) : ∃ t : Tree, t.Document text := by
  have condition : Condition.codec.read.OfJson := Codec.ofJson_record
    ⟨Reader.ofJson_textAs .text, Reader.ofJson_choice _, Reader.ofJson_choice _,
      Reader.ofJson_textAs .text, trivial⟩
  have status : Member.Status.codec.read.OfJson := Codec.ofJson_record
    ⟨Reader.ofJson_list condition, trivial⟩
  have member : Member.codec.read.OfJson := Codec.ofJson_record
    ⟨Reader.ofJson_textAs .text, status, trivial⟩
  have file : codec.read.OfJson := Codec.ofJson_record ⟨Reader.ofJson_list member, trivial⟩
  exact Codec.exists_document file decoded

theorem FleetFile.taken_of_decode {f : FleetFile} {text : String} (document : t.Document text)
    (decoded : codec.decode text = .ok f) : t.Spells ∧ codec.takes? t = some f := by
  have taken := Codec.toOption_decode codec_readsByKey.exact document
  rw [decoded] at taken
  obtain ⟨before, spelling, after, -, -, spelled, -⟩ := document
  exact ⟨⟨spelling, spelled⟩, taken.symm⟩

/-- Some member of a fleet file is failing if and only if a reason in it names a failure. -/
theorem FleetFile.fails_iff {f : FleetFile} (spells : t.Spells) (taken : codec.takes? t = some f) :
    SomeFails f.members ↔ ∃ s ∈ reasons t, Reason.NamesFailure s := by
  obtain ⟨⟨members, ⟨⟩⟩, rfl, value, -⟩ :=
    Codec.holds_of_takes? codec_readsByKey.fields (by decide) spells taken
  simp only [reasons, written, exists_mem_flatMap, exists_mem_filterMap]
  refine Field.exists_iff (P := SomeFails) value ?_ ?_
  · intro ms absent
    cases absent
    simp [SomeFails]
  · intro u hu ms taken
    refine Codec.exists_iff Member.codec_readsByKey.exact (spells.field hu) taken ?_
    intro v hv m taken
    exact Member.fails_iff ((spells.field hu).elements hv) taken

/-- The members of a fleet file are those that are written in it, in their order. -/
theorem FleetFile.members_written {f : FleetFile} (spells : t.Spells)
    (taken : codec.takes? t = some f) :
    List.Forall₂ (fun u m => Member.codec.takes? u = some m) (written t) f.members := by
  obtain ⟨⟨members, ⟨⟩⟩, rfl, value, -⟩ :=
    Codec.holds_of_takes? codec_readsByKey.fields (by decide) spells taken
  have elements : ∀ u ∈ t.field "members" 0, ∀ ms, (Codec.list Member.codec).takes? u = some ms →
      List.Forall₂ (fun u m => Member.codec.takes? u = some m) u.elements ms := by
    intro u hu ms taken
    exact Codec.elements_of_takes? Member.codec_readsByKey.exact (spells.field hu) taken
  have value : (Field.optional "members" (.list Member.codec) []).value? (t.field "members" 0) =
      some members := value
  rw [written]
  match t.field "members" 0, value, elements with
  | [], value, _ =>
    cases value
    exact .nil
  | [u], value, elements =>
    rw [List.flatMap_cons, List.flatMap_nil, List.append_nil]
    exact elements u List.mem_cons_self members value

end

end FleetHealth

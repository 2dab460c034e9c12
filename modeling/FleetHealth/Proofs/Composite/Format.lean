import FleetHealth.Composite.Codec
import FleetHealth.FleetFile
import FleetHealth.Proofs.Json.Keys

/-!
The format of members, statuses, targets and fleet files.

Each of them is a record of exact codecs, so what an object is read as depends on what stands under
the keys of its fields alone (`objects_read_by_key`).
-/

namespace FleetHealth

open FleetHealth.Json
open FleetHealth.Decimal (ofDigits)

/-! ### Names -/

theorem Truth.codec_exact : codec.Exact := Codec.exact_choice _ _

theorem Reason.codec_exact : codec.Exact := Codec.exact_choice _ _

/-- Any text is a reason. -/
theorem Reason.decode_text {s d : String} (document : (Tree.text (some s)).Document d) :
    codec.decode d = .ok (ofName s) :=
  Reader.toOption_eq_some.1
    (Codec.toOption_decode (c := codec) (Reader.means_choice fun s => .ok (ofName s)) document)

/-- A name without a meaning is an unknown reason. -/
theorem Reason.ofName_unknown {s : String} (h : ∀ r ∈ known, r.name ≠ s) : ofName s = .unknown := by
  have notFound : known.find? (·.name == s) = none :=
    List.find?_eq_none.2 fun r hr => by simpa using h r hr
  rw [ofName, notFound]
  rfl

/-! ### Records -/

theorem Condition.codec_readsByKey :
    codec.ReadsByKey fields fun c => (c.kind, c.status, c.reason, c.message, ()) :=
  Codec.readsByKey_record
    ⟨Codec.exact_text, Truth.codec_exact, Reason.codec_exact, Codec.exact_text, trivial⟩
    (by decide) (fun _ => rfl) fun _ => rfl

theorem Member.Status.codec_readsByKey : codec.ReadsByKey fields fun s => (s.conditions, ()) :=
  Codec.readsByKey_record ⟨Condition.codec_readsByKey.exact.list, trivial⟩
    (by decide) (fun _ => rfl) fun _ => rfl

theorem Member.codec_readsByKey : codec.ReadsByKey fields fun m => (m.name, m.status, ()) :=
  Codec.readsByKey_record ⟨Codec.exact_text, Status.codec_readsByKey.exact, trivial⟩
    (by decide) (fun _ => rfl) fun _ => rfl

theorem Slot.codec_readsByKey :
    codec.ReadsByKey fields fun s => (s.status, s.reason, s.message, s.since, ()) :=
  Codec.readsByKey_record
    ⟨Truth.codec_exact, Codec.exact_text, Codec.exact_text, Codec.exact_time, trivial⟩
    (by decide) (fun _ => rfl) fun _ => rfl

theorem Composite.codec_readsByKey :
    codec.ReadsByKey fields fun c => (c.progressing, c.degraded, c.available, ()) :=
  Codec.readsByKey_record
    ⟨Slot.codec_readsByKey.exact, Slot.codec_readsByKey.exact, Slot.codec_readsByKey.exact, trivial⟩
    (by decide) (fun _ => rfl) fun _ => rfl

theorem Target.codec_readsByKey :
    codec.ReadsByKey fields fun t => (t.name, t.version, t.status, ()) :=
  Codec.readsByKey_record
    ⟨Codec.exact_text, Codec.exact_natural, Composite.codec_readsByKey.exact.optional, trivial⟩
    (by decide) (fun _ => rfl) fun _ => rfl

theorem FleetFile.codec_readsByKey : codec.ReadsByKey fields fun f => (f.members, ()) :=
  Codec.readsByKey_record ⟨Member.codec_readsByKey.exact.list, trivial⟩
    (by decide) (fun _ => rfl) fun _ => rfl

/-! ### Nulls -/

@[simp] theorem Truth.codec_null : codec.takes? .null = none := Codec.choice_null _ _

@[simp] theorem Reason.codec_null : codec.takes? .null = none := Codec.choice_null _ _

theorem Condition.nullable_fields : fields.nullable = [] := by
  simp [fields, Fields.nullable, Field.required, Field.optional]

theorem Member.Status.nullable_fields : fields.nullable = [] := by
  have conditions := Codec.list_null Condition.codec_readsByKey.exact
  simp [fields, Fields.nullable, Field.optional, conditions]

theorem Member.nullable_fields : fields.nullable = [] := by
  simp [fields, Fields.nullable, Field.required, Field.optional, Status.codec_readsByKey.null]

theorem Slot.nullable_fields : fields.nullable = [] := by
  simp [fields, Fields.nullable, Field.required, Field.optional]

theorem Composite.nullable_fields : fields.nullable = [] := by
  simp [fields, Fields.nullable, Field.required, Slot.codec_readsByKey.null]

/-- A status that is null is no status. -/
theorem Target.status_null : (Codec.optional Composite.codec).takes? .null = some none :=
  Codec.optional_null Composite.codec_readsByKey.exact

theorem Target.nullable_fields : fields.nullable = ["status"] := by
  simp [fields, Fields.nullable, Field.required, Field.optional, status_null]

theorem FleetFile.nullable_fields : fields.nullable = [] := by
  have members := Codec.list_null Member.codec_readsByKey.exact
  simp [fields, Fields.nullable, Field.optional, members]

/-! ### Objects -/

/-- Every object is read by its keys: it is accepted if no key of a field occurs twice, the keys of
the fields that are required occur, and what stands under the keys can be read. Only the status of a
target may be null, a version is a natural number of 64 bits that is written with its digits alone,
and any text is a reason. -/
theorem objects_read_by_key :
    Member.codec.ReadsByKey
      (.cons (.required "name" .text) <|
        .cons (.optional "status" Member.Status.codec ⟨[]⟩) .nil)
      (fun m => (m.name, m.status, ())) ∧
    Member.Status.codec.ReadsByKey
      (.cons (.optional "conditions" (.list Condition.codec) []) .nil)
      (fun s => (s.conditions, ())) ∧
    Condition.codec.ReadsByKey
      (.cons (.optional "type" .text "") <|
        .cons (.optional "status" Truth.codec .unknown) <|
        .cons (.required "reason" Reason.codec) <|
        .cons (.optional "message" .text "") .nil)
      (fun c => (c.kind, c.status, c.reason, c.message, ())) ∧
    Slot.codec.ReadsByKey
      (.cons (.required "status" Truth.codec) <|
        .cons (.optional "reason" .text "") <|
        .cons (.optional "message" .text "") <|
        .cons (.required "lastTransitionTime" .time) .nil)
      (fun s => (s.status, s.reason, s.message, s.since, ())) ∧
    Composite.codec.ReadsByKey
      (.cons (.required "progressing" Slot.codec) <|
        .cons (.required "degraded" Slot.codec) <|
        .cons (.required "available" Slot.codec) .nil)
      (fun c => (c.progressing, c.degraded, c.available, ())) ∧
    Target.codec.ReadsByKey
      (.cons (.required "name" .text) <|
        .cons (.required "resourceVersion" .natural) <|
        .cons (.optional "status" (.optional Composite.codec) none) .nil)
      (fun t => (t.name, t.version, t.status, ())) ∧
    FleetFile.codec.ReadsByKey
      (.cons (.optional "members" (.list Member.codec) []) .nil)
      (fun f => (f.members, ())) ∧
    (Member.fields.nullable = [] ∧ Member.Status.fields.nullable = [] ∧
      Condition.fields.nullable = [] ∧ Slot.fields.nullable = [] ∧
      Composite.fields.nullable = [] ∧ FleetFile.fields.nullable = [] ∧
      Target.fields.nullable = ["status"] ∧
      (Codec.optional Composite.codec).takes? .null = some none) ∧
    (∀ {t : Tree} {s}, t.Document s → ∀ n, (Codec.natural.decode s = .ok n ↔
      ∃ whole, t = .number ⟨false, whole, [], none⟩ ∧ ofDigits whole < 2 ^ 64 ∧
        n = .ofNat (ofDigits whole))) ∧
    (∀ {s d}, (Tree.text (some s)).Document d → Reason.codec.decode d = .ok (Reason.ofName s)) ∧
    (∀ r, Reason.ofName r.name = r) ∧
    (∀ {s}, (∀ r ∈ Reason.known, r.name ≠ s) → Reason.ofName s = .unknown) := by
  refine ⟨?_, ?_, ?_, ?_, ?_, ?_, ?_, ⟨?_, ?_, ?_, ?_, ?_, ?_, ?_, ?_⟩, ?_, ?_, ?_, ?_⟩
  · exact Member.codec_readsByKey
  · exact Member.Status.codec_readsByKey
  · exact Condition.codec_readsByKey
  · exact Slot.codec_readsByKey
  · exact Composite.codec_readsByKey
  · exact Target.codec_readsByKey
  · exact FleetFile.codec_readsByKey
  · exact Member.nullable_fields
  · exact Member.Status.nullable_fields
  · exact Condition.nullable_fields
  · exact Slot.nullable_fields
  · exact Composite.nullable_fields
  · exact FleetFile.nullable_fields
  · exact Target.nullable_fields
  · exact Target.status_null
  · exact Codec.natural_decode
  · exact Reason.decode_text
  · exact Reason.ofName_name
  · exact Reason.ofName_unknown

/-! ### A target in disorder -/

/-- The greatest version. -/
def lastVersion : Literal := ⟨false, "18446744073709551615".toList, [], none⟩

/-- A target with a key that it does not have, and with its own keys in another order. -/
def shuffledTarget : List (String × Tree) :=
  [("spare", .list [.object []]), ("status", .null), ("resourceVersion", .number lastVersion),
    ("name", .text (some "fleet"))]

/-- One of its keys is escaped. -/
def shuffledText : String :=
  "\t\x7b\"spare\":[\x7b \x7d],\"status\" : null,\"resourceVersion\":18446744073709551615, " ++
    "\"n\\u0061me\":\"fleet\"\x7d\n"

theorem shuffledTarget_object : IsObject shuffledTarget shuffledText := by
  have space : Blank [' '] := by decide
  have escaped : SpelledText (some "name") "n\\u0061me".toList := by
    refine ⟨some "name".toList, ?_, by decide⟩
    have e : Body (some ['e']) ['e'] := .plain (by decide) (by decide) (by decide) .nil
    have me : Body (some ['m', 'e']) ['m', 'e'] := .plain (by decide) (by decide) (by decide) e
    have ame : Body (some ['a', 'm', 'e']) "\\u0061me".toList :=
      .unit (u := 0x61) (by decide) (by decide) (by decide) me
    exact .plain (by decide) (by decide) (by decide) ame
  have digits : SpelledNumber lastVersion "18446744073709551615".toList :=
    @SpelledNumber.mk false _ _ _ _ _ (by decide) (by decide) .none .none
  have empty : Spelled (.object []) "\x7b \x7d".toList := .object (w := [' ']) .nil space
  have list : Spelled (.list [.object []]) "[\x7b \x7d]".toList :=
    .list (w := []) (@SpelledElements.cons true _ [] [] _ [] (.first .nil) empty .nil) .nil
  have name := @SpelledFields.cons false _ _ [] _ _ [] [] _ _ (@Lead.next [] [' '] .nil space)
    escaped .nil .nil (.text (spelledText_printBody (some "fleet"))) .nil
  have version := @SpelledFields.cons false _ _ _ _ _ [] [] _ _ (@Lead.next [] [] .nil .nil)
    (spelledText_printBody (some "resourceVersion")) .nil .nil (.number digits) name
  have status := @SpelledFields.cons false _ _ _ _ _ [' '] [' '] _ _ (@Lead.next [] [] .nil .nil)
    (spelledText_printBody (some "status")) space space .null version
  have spare := @SpelledFields.cons true _ _ _ [] _ [] [] _ _ (.first .nil)
    (spelledText_printBody (some "spare")) .nil .nil list status
  exact ⟨['\t'], _, ['\n'], by decide +kernel, by decide, .object (w := []) spare .nil, by decide⟩

/-- It is read as the target all the same. -/
theorem objects_read_by_key_shuffled :
    IsObject shuffledTarget shuffledText ∧
      Target.codec.decode shuffledText = .ok ⟨"fleet", 18446744073709551615, none⟩ := by
  have targets := objects_read_by_key.2.2.2.2.2.1
  have name : Codec.text.takes? (.text (some "fleet")) = some "fleet" := by decide +kernel
  have version : Codec.natural.takes? (.number lastVersion) = some 18446744073709551615 := by
    decide +kernel
  have names : valuesAt shuffledTarget "name" = [.text (some "fleet")] := by
    simp [valuesAt, shuffledTarget]
  have versions : valuesAt shuffledTarget "resourceVersion" = [.number lastVersion] := by
    simp [valuesAt, shuffledTarget]
  have statuses : valuesAt shuffledTarget "status" = [.null] := by simp [valuesAt, shuffledTarget]
  refine ⟨shuffledTarget_object, (targets.takes shuffledTarget_object _).2 ?_⟩
  refine Fields.values?_eq_some.1 ?_
  simp only [Fields.values?, Field.required, Field.optional, names, versions, statuses,
    Field.value?, name, version, Target.status_null]
  rfl

end FleetHealth

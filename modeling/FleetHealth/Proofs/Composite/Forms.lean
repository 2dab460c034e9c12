import FleetHealth.Proofs.Composite.Format
import FleetHealth.Proofs.Json.Forms

/-!
The forms of members, statuses, targets and fleet files.

Each of them may be a list or an object, and so may each record inside of it. Whatever is chosen, the
value that is decoded is the same (`forms_agree`).
-/

namespace FleetHealth

open FleetHealth.Json

/-! ### Forms -/

def Condition.form : Form Condition :=
  .record fields (.text, .choice Truth.name, .choice Reason.name, .text, ())
    fun c => (c.kind, c.status, c.reason, c.message, ())

def Member.Status.form : Form Member.Status :=
  .record fields (.list Condition.form, ()) fun s => (s.conditions, ())

def Member.form : Form Member :=
  .record fields (.text, Status.form, ()) fun m => (m.name, m.status, ())

def FleetFile.form : Form FleetFile :=
  .record fields (.list Member.form, ()) fun f => (f.members, ())

def Slot.form : Form Slot :=
  .record fields (.choice Truth.name, .text, .text, .time, ())
    fun s => (s.status, s.reason, s.message, s.since, ())

def Composite.form : Form Composite :=
  .record fields (Slot.form, Slot.form, Slot.form, ())
    fun c => (c.progressing, c.degraded, c.available, ())

def Target.form : Form Target :=
  .record fields (.text, .natural, .optional Composite.form, ())
    fun t => (t.name, t.version, t.status, ())

/-! ### Codecs -/

theorem Truth.codec_follows : codec.Follows (.choice name) :=
  Codec.follows_choice fun t => by simp only [ofName?_name]

theorem Reason.codec_follows : codec.Follows (.choice name) :=
  Codec.follows_choice fun r => by simp only [ofName_name]

theorem Condition.fields_follow :
    fields.Follow (.text, .choice Truth.name, .choice Reason.name, .text, ()) :=
  ⟨Codec.follows_text, Truth.codec_follows, Reason.codec_follows, Codec.follows_text, trivial⟩

theorem Condition.codec_follows : codec.Follows form :=
  Codec.follows_record fields_follow (by decide) fun _ => rfl

theorem Member.Status.fields_follow : fields.Follow (.list Condition.form, ()) :=
  ⟨Condition.codec_follows.list, trivial⟩

theorem Member.Status.codec_follows : codec.Follows form :=
  Codec.follows_record fields_follow (by decide) fun _ => rfl

theorem Member.fields_follow : fields.Follow (.text, Status.form, ()) :=
  ⟨Codec.follows_text, Status.codec_follows, trivial⟩

theorem Member.codec_follows : codec.Follows form :=
  Codec.follows_record fields_follow (by decide) fun _ => rfl

theorem FleetFile.fields_follow : fields.Follow (.list Member.form, ()) :=
  ⟨Member.codec_follows.list, trivial⟩

theorem Slot.fields_follow : fields.Follow (.choice Truth.name, .text, .text, .time, ()) :=
  ⟨Truth.codec_follows, Codec.follows_text, Codec.follows_text, Codec.follows_time, trivial⟩

theorem Slot.codec_follows : codec.Follows form :=
  Codec.follows_record fields_follow (by decide) fun _ => rfl

theorem Composite.fields_follow : fields.Follow (Slot.form, Slot.form, Slot.form, ()) :=
  ⟨Slot.codec_follows, Slot.codec_follows, Slot.codec_follows, trivial⟩

theorem Composite.codec_follows : codec.Follows form :=
  Codec.follows_record fields_follow (by decide) fun _ => rfl

theorem Target.fields_follow : fields.Follow (.text, .natural, .optional Composite.form, ()) :=
  ⟨Codec.follows_text, Codec.follows_natural,
    Composite.codec_follows.optional Composite.codec_readsByKey.null, trivial⟩

theorem Target.codec_follows : codec.Follows form :=
  Codec.follows_record fields_follow (by decide) fun _ => rfl

/-- Whatever form is chosen for a value, and for each record inside of it, it is decoded as that
value. A list that ends before a field that must be there is not decoded, nor is one that goes on
after the last field, nor is anything with such a list inside. -/
theorem forms_agree :
    Condition.codec.DecodesForms Condition.form ∧
    Member.Status.codec.DecodesForms Member.Status.form ∧
    Member.codec.DecodesForms Member.form ∧
    FleetFile.codec.DecodesForms FleetFile.form ∧
    Slot.codec.DecodesForms Slot.form ∧
    Composite.codec.DecodesForms Composite.form ∧
    Target.codec.DecodesForms Target.form ∧
    (Condition.fields.least = 3 ∧ Condition.fields.count = 4) ∧
    (Member.Status.fields.least = 0 ∧ Member.Status.fields.count = 1) ∧
    (Member.fields.least = 1 ∧ Member.fields.count = 2) ∧
    (FleetFile.fields.least = 0 ∧ FleetFile.fields.count = 1) ∧
    (Slot.fields.least = 4 ∧ Slot.fields.count = 4) ∧
    (Composite.fields.least = 3 ∧ Composite.fields.count = 3) ∧
    (Target.fields.least = 2 ∧ Target.fields.count = 3) := by
  refine ⟨?_, ?_, ?_, ?_, ?_, ?_, ?_, ⟨rfl, rfl⟩, ⟨rfl, rfl⟩, ⟨rfl, rfl⟩, ⟨rfl, rfl⟩, ⟨rfl, rfl⟩,
    ⟨rfl, rfl⟩, ⟨rfl, rfl⟩⟩
  · exact Codec.decodesForms_record Condition.fields_follow (by decide) fun _ => rfl
  · exact Codec.decodesForms_record Member.Status.fields_follow (by decide) fun _ => rfl
  · exact Codec.decodesForms_record Member.fields_follow (by decide) fun _ => rfl
  · exact Codec.decodesForms_record FleetFile.fields_follow (by decide) fun _ => rfl
  · exact Codec.decodesForms_record Slot.fields_follow (by decide) fun _ => rfl
  · exact Codec.decodesForms_record Composite.fields_follow (by decide) fun _ => rfl
  · exact Codec.decodesForms_record Target.fields_follow (by decide) fun _ => rfl

/-! ### A fleet in mixed forms -/

/-- One of the conditions has no message, the other has only a reason and a message. -/
def mixedFleet : FleetFile :=
  ⟨[⟨"a", ⟨[⟨"Installed", .yes, .applyFailed, ""⟩, ⟨"", .unknown, .applyPending, "slow"⟩]⟩⟩,
    ⟨"b", ⟨[]⟩⟩]⟩

/-- The conditions are a list without its last element and an object, the members likewise. -/
def mixedTree : Tree :=
  .list [.list [
    .list [.text (some "a"), .list [.list [
      .list [.text (some "Installed"), .text (some "True"), .text (some "ApplyFailed")],
      .object (named [("message", .text (some "slow")), ("reason", .text (some "ApplyPending"))])]]],
    .object (named [("name", .text (some "b"))])]]

def mixedText : String :=
  "[[[\"a\",[[[\"Installed\",\"True\",\"ApplyFailed\"]," ++
    "\x7b\"message\":\"slow\",\"reason\":\"ApplyPending\"\x7d]]],\x7b\"name\":\"b\"\x7d]]"

/-- A condition that ends before its reason. -/
def cutCondition : Tree := .list [.text (some "Installed"), .text (some "True")]

def cutMember : Tree :=
  .object (named [("name", .text (some "a")), ("status", .list [.list [cutCondition]])])

def cutTree : Tree := .list [.list [cutMember]]

def cutText : String :=
  "[[\x7b\"name\":\"a\",\"status\":[[[\"Installed\",\"True\"]]]\x7d]]"

theorem mixedTree_document : mixedTree.Document mixedText := by
  have spells : mixedTree.Spells := by simp [mixedTree, named]
  have text : String.ofList mixedTree.print = mixedText := by decide +kernel
  exact text ▸ spells.document

/-- It is one way to write the fleet. -/
theorem mixedTree_written : FleetFile.form.Writes mixedFleet mixedTree := by
  have installed : Condition.form.Writes ⟨"Installed", .yes, .applyFailed, ""⟩
      (.list [.text (some "Installed"), .text (some "True"), .text (some "ApplyFailed")]) :=
    .list ⟨rfl, rfl, rfl, rfl, rfl⟩
  -- the type and the status are left out, and the other two are swapped
  have pending : Condition.form.Writes ⟨"", .unknown, .applyPending, "slow"⟩
      (.object (named [("message", .text (some "slow")), ("reason", .text (some "ApplyPending"))])) :=
    .object (.inr ⟨rfl, .inr ⟨rfl, .inl ⟨_, _, rfl, rfl, .inl ⟨_, _, rfl, rfl, rfl⟩⟩⟩⟩) (.swap ..)
  have second : Member.form.Writes ⟨"b", ⟨[]⟩⟩ (.object (named [("name", .text (some "b"))])) :=
    .object (.inl ⟨_, _, rfl, rfl, .inr ⟨rfl, rfl⟩⟩) (.refl _)
  exact .list ⟨⟨_, rfl, .cons (.list ⟨rfl, .list ⟨⟨_, rfl, .cons installed (.cons pending .nil)⟩, rfl⟩,
    rfl⟩) (.cons second .nil)⟩, rfl⟩

theorem cutTree_document : cutTree.Document cutText := by
  have spells : cutTree.Spells := by
    simp [cutTree, cutMember, cutCondition, named]
  have text : String.ofList cutTree.print = cutText := by decide +kernel
  exact text ▸ spells.document

/-- What does not fit is far inside. -/
theorem cutTree_misfit : FleetFile.form.Misfit cutTree := by
  have condition : Condition.form.Misfit cutCondition := .short (by decide)
  have status : Member.Status.form.Misfit (.list [.list [cutCondition]]) :=
    .inside (.inl ⟨_, List.mem_singleton_self _, _, List.mem_singleton_self _, condition⟩)
  have stands : .list [.list [cutCondition]] ∈ cutMember.field "status" 1 := by
    simp [cutMember, Tree.field_named, valuesAt]
  have member : Member.form.Misfit cutMember := .inside (.inr (.inl ⟨_, stands, status⟩))
  exact .inside (.inl ⟨_, List.mem_singleton_self _, _, List.mem_singleton_self _, member⟩)

/-- The file is decoded as the fleet; with the condition cut short it is not decoded. -/
theorem forms_agree_mixed :
    FleetFile.codec.decode mixedText = .ok mixedFleet ∧ ∀ f, FleetFile.codec.decode cutText ≠ .ok f := by
  have fleets := forms_agree.2.2.2.1
  exact ⟨fleets.decodes mixedTree_written mixedTree_document,
    fleets.rejects cutTree_misfit cutTree_document⟩

end FleetHealth

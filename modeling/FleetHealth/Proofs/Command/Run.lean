import FleetHealth.Proofs.Command.Arguments
import FleetHealth.Proofs.Composite.RoundTrip
import FleetHealth.Proofs.FleetFile.Reasons
import FleetHealth.Proofs.Pass.Outcome
import FleetHealth.Proofs.Pass.Undisturbed

/-!
What comes of a run of the command.

A run that is told a path and a name depends on the content of the file alone
(`Command.run_of_holds`, `Command.run_of_not_holds`): a new target is always written, since it has
no status yet (`Command.passOver_eq`). What is printed is then said of the file as it is written
(`run_reports_fleet`): of its members, and of the names of its reasons.
-/

namespace FleetHealth

open FleetHealth.Json
open FleetHealth.Time (Instant)

/-! ### The file -/

theorem FleetFile.text_eq_ok {bytes : ByteArray} {s : String} :
    text (.ok bytes) = .ok s ↔ s.toUTF8 = bytes := by
  unfold text String.fromUTF8?
  by_cases valid : bytes.IsValidUTF8
  · simp only [dif_pos valid]
    constructor
    · intro same
      cases same
      rfl
    · rintro rfl
      rfl
  · simp only [dif_neg valid]
    refine ⟨nofun, ?_⟩
    rintro rfl
    exact absurd s.isValidUTF8 valid

/-- The content of a file is the UTF-8 form of a text that is read as this fleet file. -/
def FleetFile.Holds (bytes : ByteArray) (f : FleetFile) : Prop :=
  ∃ text : String, text.toUTF8 = bytes ∧ codec.decode text = .ok f

theorem FleetFile.read_eq_ok {bytes : ByteArray} {f : FleetFile} :
    read (.ok bytes) = .ok f ↔ Holds bytes f := by
  rw [read]
  constructor
  · intro same
    split at same
    · cases same
    · next s found =>
      split at same
      · cases same
      · next f' decoded =>
        cases same
        exact ⟨s, text_eq_ok.1 found, decoded⟩
  · rintro ⟨s, form, decoded⟩
    rw [text_eq_ok.2 form]
    simp only [decoded]

/-! ### The pass -/

/-- A listing that does not fail has a verdict. -/
theorem Listing.answer_ok (ms : List Member) : ∃ v, Listing.answer (.ok ms) = .ok (some v) := by
  rw [Listing.answer]
  split
  · exact ⟨_, rfl⟩
  · split
    · exact ⟨_, rfl⟩
    · exact ⟨_, rfl⟩

namespace Command

/-- A pass over a new target writes it once. -/
theorem passOver_eq (roster : Roster) (name : String) (now : Instant) :
    passOver roster name now =
      .ok (some ⟨name, 1, some (Listing.composite (.ok roster.members) none now)⟩) := by
  have up : (Store.single name).unavailable = false := rfl
  have found : (Store.single name).find? name = some (.new name) := by
    simp [Store.single, Store.find?, Target.new]
  have passed := Site.pass_eq (s := { Site.new (.single name) roster with clock := now }) up found
  have list : ({ Site.new (.single name) roster with clock := now } : Site).list =
      .ok roster.members := rfl
  have written : ((Store.single name).update (.new name)
      (Listing.composite (.ok roster.members) none now)).2 = (Store.single name).afterWrite
        (.new name) (Listing.composite (.ok roster.members) none now) := by
    rw [Store.update_of_find? up found, if_neg (by simp [Target.new])]
  have got : ((Store.single name).afterWrite (.new name)
      (Listing.composite (.ok roster.members) none now)).get name =
        .ok (some ⟨name, 1, some (Listing.composite (.ok roster.members) none now)⟩) := by
    rw [Store.get_of_available rfl, Store.find?_afterWrite, if_pos (by rfl)]
    rfl
  obtain ⟨v, answer⟩ := Listing.answer_ok roster.members
  rw [list, answer] at passed
  simp only [passOver, passed]
  simp only [Site.new, Target.new] at written got ⊢
  rw [written, got]

/-- The document that is printed for a target. -/
def printout (t : Target) : String := (Codec.optional Target.codec).encode .pretty (some t)

/-- A target is read back from its document, and not taken for none. -/
theorem decode_printout (t : Target) : Target.codec.decode (printout t) = .ok t ∧
    (Codec.optional Target.codec).decode (printout t) = .ok (some t) := by
  have written : ∀ t, Target.codec.write t ≠ .null := by
    intro t null
    cases null
  exact ⟨Target.codec_lawful.decode_encode .pretty t,
    (Target.codec_lawful.optional written).decode_encode .pretty (.some t)⟩

section

variable {s : Surroundings} {path name : String} {bytes : ByteArray}

/-- A fleet file that can be read is answered with the target after the pass. -/
theorem run_of_holds {f : FleetFile} (told : Told s path name) (content : s.file path = .ok bytes)
    (holds : FleetFile.Holds bytes f) :
    run s = .printed
      (printout ⟨name, 1, some (Listing.composite (.ok f.members) none s.now)⟩) := by
  simp only [run, readOptions_of_told told, content, document, Roster.ofFile,
    FleetFile.read_eq_ok.2 holds, passOver_eq]
  rfl

/-- A file that cannot be read as a fleet file makes the command fail. -/
theorem run_of_not_holds (told : Told s path name) (content : s.file path = .ok bytes)
    (unreadable : ¬ ∃ f, FleetFile.Holds bytes f) : ∃ text, run s = .failed text := by
  cases read : FleetFile.read (.ok bytes) with
  | error text =>
    simp only [run, readOptions_of_told told, content, document, Roster.ofFile, read]
    exact ⟨_, rfl⟩
  | ok f => exact absurd ⟨f, FleetFile.read_eq_ok.1 read⟩ unreadable

end

end Command

/-- What is said of these members, of which some are failing if and only if a failure is named. -/
structure Composite.ReportsOn (c : Composite) (ms : List Member) (named : Prop) : Prop where
  degraded : c.degraded.status = .yes ↔ named
  empty : ms = [] →
    c.contents = ⟨⟨.yes, "", ""⟩, ⟨.no, "", ""⟩, ⟨.yes, "No POs Found", ""⟩⟩
  failing : named → c.contents =
    ⟨⟨.yes, "", ""⟩, ⟨.yes, "", ""⟩, ⟨.no, "PO In An Error State", wording (troubles ms)⟩⟩
  healthy : ms ≠ [] → ¬ named → c.contents = ⟨⟨.yes, "", ""⟩, ⟨.no, "", ""⟩,
    ⟨.yes, "POs Are Healthy", "All POs in a successful state"⟩⟩

theorem Composite.reportsOn_of_contents {c : Composite} {ms : List Member} {named : Prop}
    (contents : c.contents = Listing.contents (.ok ms)) (fails : SomeFails ms ↔ named) :
    c.ReportsOn ms named := by
  have status : c.degraded.status = (Listing.contents (.ok ms)).degraded.status :=
    congrArg (·.degraded.status) contents
  rw [Listing.contents] at contents status
  constructor
  case degraded =>
    rw [← fails, status]
    split
    · next empty => simp [empty, SomeFails]
    · split
      · next failing => simp [failing]
      · next healthy => simp [healthy]
  case empty =>
    intro empty
    rw [contents, if_pos empty]
  case failing =>
    intro holds
    have failing := fails.2 holds
    rw [contents, if_neg failing.ne_nil, if_pos failing, reportMessage]
  case healthy =>
    intro members holds
    rw [contents, if_neg members, if_neg (mt fails.1 holds)]

/-- The command, told a path and a name, of a file with any content at all: it succeeds if and only
if the content is UTF-8 and is read as a fleet file, and fails otherwise. If it succeeds, it prints a
target of that name, at the version after its first write, and the status of the target says what
the members that are written in the file call for, as of now. The file is then a document, and a
member counts as failing by the name of a reason alone, as it is written there. -/
theorem run_reports_fleet {s : Command.Surroundings} {path name : String} {bytes : ByteArray}
    (told : Command.Told s path name) (content : s.file path = .ok bytes) :
    ((Command.run s).status = 0 ↔ ∃ text f, text.toUTF8 = bytes ∧
      FleetFile.codec.decode text = .ok f) ∧
    ((Command.run s).status = 0 ∨ (Command.run s).status = 1) ∧
    ∀ text f, text.toUTF8 = bytes → FleetFile.codec.decode text = .ok f →
      ∃ printout c, Command.run s = .printed printout ∧
        Target.codec.decode printout = .ok ⟨name, 1, some c⟩ ∧
        (Codec.optional Target.codec).decode printout = .ok (some ⟨name, 1, some c⟩) ∧
        (∀ x, (c.slot x).since = s.now) ∧
        (∃ tree : Tree, tree.Document text) ∧
        ∀ tree : Tree, tree.Document text →
          List.Forall₂ (fun t m => Member.codec.takes? t = some m) (FleetFile.written tree)
            f.members ∧
          c.ReportsOn f.members
            (∃ r ∈ FleetFile.reasons tree, r = "SourceFailed" ∨ r = "ApplyFailed") := by
  have failed (unreadable : ¬ ∃ f, FleetFile.Holds bytes f) : (Command.run s).status = 1 := by
    obtain ⟨text, run⟩ := Command.run_of_not_holds told content unreadable
    rw [run]
    rfl
  have succeeded {f : FleetFile} (holds : FleetFile.Holds bytes f) :
      (Command.run s).status = 0 := by
    rw [Command.run_of_holds told content holds]
    rfl
  refine ⟨⟨?_, ?_⟩, ?_, ?_⟩
  · intro zero
    by_contra unreadable
    rw [failed fun ⟨f, text, holds⟩ => unreadable ⟨text, f, holds⟩] at zero
    cases zero
  · rintro ⟨text, f, holds⟩
    exact succeeded ⟨text, holds⟩
  · by_cases readable : ∃ f, FleetFile.Holds bytes f
    · obtain ⟨f, holds⟩ := readable
      exact .inl (succeeded holds)
    · exact .inr (failed readable)
  · intro text f form decoded
    have dated := Listing.dated_composite (.ok f.members) none s.now
    have contents := Listing.contents_composite (.ok f.members) none s.now
    have run := Command.run_of_holds told content ⟨text, form, decoded⟩
    obtain ⟨target, optional⟩ := Command.decode_printout
      ⟨name, 1, some (Listing.composite (.ok f.members) none s.now)⟩
    refine ⟨_, _, run, target, optional, ?_, FleetFile.exists_document decoded, ?_⟩
    · intro x
      exact dated.fresh x fun p hp => (Option.not_mem_none p hp).elim
    · intro tree document
      obtain ⟨spells, taken⟩ := FleetFile.taken_of_decode document decoded
      exact ⟨FleetFile.members_written spells taken,
        Composite.reportsOn_of_contents contents (FleetFile.fails_iff spells taken)⟩

/-- A fleet file in which records are written as lists, and a reason as an object with an escaped
key. The second member fails too, by a condition that says it is fine. -/
def listedFleet : String :=
  "[[\x7b\"status\":[[[\"Installed\",\"True\",\x7b\"Appl\\u0079Failed\":null\x7d]]]," ++
    "\"name\":\"a\"\x7d,[\"b\",[[[\"Ready\",\"True\",\"SourceFailed\",\"all is well\"]]]]]]"

/-- The members of the file. -/
def listedMembers : List Member :=
  [⟨"a", ⟨[.installed .yes .applyFailed]⟩⟩,
    ⟨"b", ⟨[⟨"Ready", .yes, .sourceFailed, "all is well"⟩]⟩⟩]

/-- The path is joined to its option, and the name comes from the environment. -/
def listedSurroundings : Command.Surroundings where
  arguments := ["--fleet-file=fleet.json", "--"]
  environment
    | "FLEET_TARGET_NAME" => some "agg"
    | _ => none
  file _ := .ok listedFleet.toUTF8
  now := .epoch

/-- Both members of the file are failing, and the printed target says so. -/
theorem run_reports_fleet_listed :
    Command.Told listedSurroundings "fleet.json" "agg" ∧
      (Command.run listedSurroundings).status = 0 ∧
      ∃ printout c, Command.run listedSurroundings = .printed printout ∧
        Target.codec.decode printout = .ok ⟨"agg", 1, some c⟩ ∧
        (∀ x, (c.slot x).since = .epoch) ∧
        c.contents = ⟨⟨.yes, "", ""⟩, ⟨.yes, "", ""⟩, ⟨.no, "PO In An Error State",
          "[a is failing: \"ApplyFailed\", b is failing: \"SourceFailed\"]"⟩⟩ ∧
        (∃ tree : Tree, tree.Document listedFleet) ∧
        ∀ tree : Tree, tree.Document listedFleet →
          c.ReportsOn listedMembers
            (∃ r ∈ FleetFile.reasons tree, r = "SourceFailed" ∨ r = "ApplyFailed") := by
  have told : Command.Told listedSurroundings "fleet.json" "agg" := by
    refine ⟨⟨[(.fleetFile, "fleet.json")], ?_, by decide, by decide, by decide⟩, by decide⟩
    exact .option .joined .hyphens
  have decoded : FleetFile.codec.decode listedFleet = .ok ⟨listedMembers⟩ := by decide +kernel
  have content : listedSurroundings.file "fleet.json" = .ok listedFleet.toUTF8 := rfl
  obtain ⟨succeeds, -, prints⟩ := run_reports_fleet told content
  obtain ⟨printout, c, run, target, -, since, written, said⟩ := prints listedFleet _ rfl decoded
  obtain ⟨tree, document⟩ := written
  obtain ⟨spells, taken⟩ := FleetFile.taken_of_decode document decoded
  have named := (FleetFile.fails_iff spells taken).1 (by decide)
  have contents := (said tree document).2.failing named
  exact ⟨told, succeeds.2 ⟨listedFleet, _, rfl, decoded⟩, printout, c, run, target, since,
    contents.trans (by decide +kernel), ⟨tree, document⟩,
    fun tree document => (said tree document).2⟩

end FleetHealth

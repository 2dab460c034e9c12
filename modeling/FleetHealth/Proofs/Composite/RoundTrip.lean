import FleetHealth.Composite.Codec
import FleetHealth.Proofs.Json.Lawful

/-!
Members, statuses and targets are read back from what is written for them.
-/

namespace FleetHealth

open FleetHealth.Json
open FleetHealth.Time (Instant)

theorem Truth.codec_lawful : codec.Lawful :=
  Codec.lawful_choice fun t => by simp only [ofName?_name]

theorem Reason.codec_lawful : codec.Lawful :=
  Codec.lawful_choice fun r => by simp only [ofName_name]

theorem Condition.codec_lawful : codec.Lawful :=
  Codec.lawful_record
    ⟨Codec.lawful_text, Truth.codec_lawful, Reason.codec_lawful, Codec.lawful_text, trivial⟩
    (by decide) fun _ => rfl

theorem Member.Status.codec_lawful : codec.Lawful :=
  Codec.lawful_record ⟨Condition.codec_lawful.list, trivial⟩ (by decide) fun _ => rfl

theorem Member.codec_lawful : codec.Lawful :=
  Codec.lawful_record ⟨Codec.lawful_text, Status.codec_lawful, trivial⟩ (by decide) fun _ => rfl

theorem Slot.codec_lawful : codec.Lawful :=
  Codec.lawful_record
    ⟨Truth.codec_lawful, Codec.lawful_text, Codec.lawful_text, Codec.lawful_time, trivial⟩
    (by decide) fun _ => rfl

theorem Composite.codec_lawful : codec.Lawful :=
  Codec.lawful_record
    ⟨Slot.codec_lawful, Slot.codec_lawful, Slot.codec_lawful, trivial⟩ (by decide) fun _ => rfl

/-- A composite status is an object, not a null. -/
theorem Composite.write_ne_null (c : Composite) : codec.write c ≠ .null := by
  intro null
  cases null

theorem Target.codec_lawful : codec.Lawful :=
  Codec.lawful_record
    ⟨Codec.lawful_text, Codec.lawful_natural,
      Composite.codec_lawful.optional Composite.write_ne_null, trivial⟩
    (by decide) fun _ => rfl

/-- Every value of the model is read back from its compact and from its pretty text, and every text
that is accepted settles once it is written again. -/
theorem codecs_round_trip :
    Truth.codec.RoundTrips ∧ Reason.codec.RoundTrips ∧ Condition.codec.RoundTrips ∧
      Member.Status.codec.RoundTrips ∧ Member.codec.RoundTrips ∧ Slot.codec.RoundTrips ∧
      Composite.codec.RoundTrips ∧ Target.codec.RoundTrips := by
  refine ⟨?_, ?_, ?_, ?_, ?_, ?_, ?_, ?_⟩
  · exact Truth.codec_lawful.roundTrips
  · exact Reason.codec_lawful.roundTrips
  · exact Condition.codec_lawful.roundTrips
  · exact Member.Status.codec_lawful.roundTrips
  · exact Member.codec_lawful.roundTrips
  · exact Slot.codec_lawful.roundTrips
  · exact Composite.codec_lawful.roundTrips
  · exact Target.codec_lawful.roundTrips

/-- The last second of the first day that an instant can have, which is a leap second. -/
def earlyLeapSecond : Instant := ⟨Time.firstDay, 86399, 1999999999, by decide⟩

/-- A slot that is read from a list, with escapes that are not needed and a local time that is
loosely written, is read as the same slot once it is written again. -/
theorem codecs_round_trip_respelled :
    let slot : Slot := ⟨.yes, "", "caf\u00e9 \"/", earlyLeapSecond⟩
    let text := "[\"True\", \"\", \"caf\\u00e9 \\\"\\/\", " ++
      "\"-262143- 01-02t00:59:60.9999999990+0100\"]"
    Slot.codec.decode text = .ok slot ∧
      Slot.codec.decode (Slot.codec.encode .compact slot) = Slot.codec.decode text ∧
      (Slot.codec.decode (Slot.codec.encode .pretty slot)).map (Slot.codec.encode .pretty) =
        .ok (Slot.codec.encode .pretty slot) := by
  intro slot text
  have read : Slot.codec.decode text = .ok slot := by decide +kernel
  have slots : Slot.codec.RoundTrips := codecs_round_trip.2.2.2.2.2.1
  exact ⟨read, (slots.rewritten .compact _ _ read).1, (slots.rewritten .pretty _ _ read).2⟩

end FleetHealth

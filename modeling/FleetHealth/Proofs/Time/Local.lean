import FleetHealth.Proofs.Time.Calendar
import FleetHealth.Time.Printer

/-!
The spellings of an instant.

A clock that runs some minutes ahead of universal time shows a day and a second of that day
(`Instant.localDay`, `Instant.localSecond`). `Instant.Spelled` holds of the texts that give such a
reading with the offset of the clock, with as many places of the second as one likes. The canonical
text is one of them (`Instant.spelled_write`). Nothing here refers to a reader.
-/

namespace FleetHealth.Time

open FleetHealth.Decimal

/-! ### Fractions of a second -/

/-- The nanoseconds that the places after the point stand for: nine of them count, and those that are
missing are zeros. -/
def nanoseconds (places : List Char) : Nat :=
  ofDigits ((places ++ List.replicate 9 '0').take 9)

/-- The text is a fraction of a second: nothing, or a point and places. -/
inductive SpelledFraction : Nat → List Char → Prop
  | whole : SpelledFraction 0 []
  | point {nano : Nat} {places : List Char} (nonempty : places ≠ [])
    (digits : ∀ c ∈ places, c.isDigit) (value : nanoseconds places = nano) : SpelledFraction nano ('.' :: places)

/-! ### Offsets from universal time -/

/-- Hours and minutes, joined by a colon. -/
def writeHours (minutes : Nat) : List Char :=
  padded 2 (minutes / 60) ++ ':' :: padded 2 (minutes % 60)

/-- The text is an offset of so many minutes, less than a day. -/
inductive SpelledOffset : Int → List Char → Prop
  | universal : SpelledOffset 0 ['Z']
  | ahead {minutes : Nat} (day : minutes < 1440) : SpelledOffset minutes ('+' :: writeHours minutes)
  | behind {minutes : Nat} (day : minutes < 1440) :
    SpelledOffset (-minutes) ('-' :: writeHours minutes)

/-! ### Readings -/

/-- Hours, minutes and seconds, joined by colons; a leap second is one more. -/
def writeClock (secondOfDay leap : Nat) : List Char :=
  padded 2 (secondOfDay / 3600) ++ ':' :: padded 2 (secondOfDay / 60 % 60) ++
    ':' :: padded 2 (secondOfDay % 60 + leap)

namespace Instant

/-- The day that a clock shows which runs some minutes ahead of universal time. -/
def localDay (i : Instant) (minutes : Int) : Int :=
  i.day + (i.secondOfDay + 60 * minutes) / 86400

/-- The second of the day that such a clock shows. -/
def localSecond (i : Instant) (minutes : Int) : Nat :=
  ((i.secondOfDay + 60 * minutes) % 86400).toNat

/-- What such a clock shows, with a fraction of the second. -/
def reading (i : Instant) (minutes : Int) (fraction : List Char) : List Char :=
  (Date.ofDay (i.localDay minutes)).write ++
    'T' :: writeClock (i.localSecond minutes) (i.nano / second) ++ fraction

/-- The text is a reading of the instant with the offset of the clock, which shows a date in the
supported years. -/
inductive Spelled (i : Instant) : List Char → Prop
  | reading {minutes : Int} {fraction zone : List Char} (first : firstDay ≤ i.localDay minutes)
    (last : i.localDay minutes ≤ lastDay) (places : SpelledFraction (i.nano % second) fraction)
    (offset : SpelledOffset minutes zone) : i.Spelled (i.reading minutes fraction ++ zone)

end Instant

/-! ### Places that do not count -/

section

variable {nano : Nat} {places : List Char} {minutes : Int} {zone : List Char}

/-- Zeros at the end multiply by powers of ten. -/
theorem ofDigits_append_zeros (ds : List Char) (k : Nat) :
    ofDigits (ds ++ List.replicate k '0') = ofDigits ds * Nat.pow 10 k := by
  induction k with
  | zero => simp
  | succ k ih =>
    have zero : digitValue '0' = 0 := rfl
    have power : Nat.pow 10 (k + 1) = Nat.pow 10 k * 10 := rfl
    rw [List.replicate_succ', ← List.append_assoc, ofDigits_concat, ih, zero, power, Nat.add_zero,
      Nat.mul_comm 10, Nat.mul_assoc]

/-- What is read of the places is filled up with zeros. -/
theorem nanoseconds_eq (places : List Char) :
    nanoseconds places = ofDigits (places.take 9) * Nat.pow 10 (9 - (places.take 9).length) := by
  rw [nanoseconds, ← ofDigits_append_zeros, List.take_append, List.take_replicate, List.length_take]
  congr 3
  omega

theorem nanoseconds_padded {width m : Nat} (h : m < Nat.pow 10 (width + 1)) (nine : width + 1 ≤ 9) :
    nanoseconds (padded (width + 1) m) = m * Nat.pow 10 (9 - (width + 1)) := by
  have length := length_padded h
  rw [nanoseconds_eq, List.take_of_length_le (Nat.le_of_eq length |>.trans nine), length,
    ofDigits_padded]

/-! ### The canonical text -/

theorem spelledFraction_write (below : nano < second) :
    SpelledFraction nano (writeFraction nano) := by
  have places {width m : Nat} (h : m < Nat.pow 10 (width + 1)) (nine : width + 1 ≤ 9)
      (value : m * Nat.pow 10 (9 - (width + 1)) = nano) :
      SpelledFraction nano ('.' :: padded (width + 1) m) :=
    .point (padded_ne_nil _ _) (fun _ hc => isDigit_of_mem_padded hc)
      ((nanoseconds_padded h nine).trans value)
  simp only [second] at below
  rw [writeFraction]
  split
  · next zero =>
    rw [zero]
    exact .whole
  · split
    · exact places (by simp; omega) (by decide) (by simp; omega)
    · split
      · exact places (by simp; omega) (by decide) (by simp; omega)
      · exact places (by simp; omega) (by decide) (by simp)

/-- An offset is less than a day. -/
theorem SpelledOffset.bounds (h : SpelledOffset minutes zone) : -1440 < minutes ∧ minutes < 1440 := by
  cases h <;> omega

/-- Every offset of less than a day has a text. -/
theorem SpelledOffset.exists_iff :
    (∃ zone, SpelledOffset minutes zone) ↔ -1440 < minutes ∧ minutes < 1440 := by
  constructor
  · rintro ⟨zone, h⟩
    exact h.bounds
  · rintro ⟨least, greatest⟩
    obtain ⟨n, rfl | rfl⟩ := minutes.eq_nat_or_neg
    · exact ⟨_, .ahead (by omega)⟩
    · exact ⟨_, .behind (by omega)⟩

namespace Instant

theorem localDay_zero (i : Instant) : i.localDay 0 = i.day := by
  have seconds := i.fits.secondOfDay_lt
  rw [localDay]
  omega

theorem localSecond_zero (i : Instant) : i.localSecond 0 = i.secondOfDay := by
  have seconds := i.fits.secondOfDay_lt
  rw [localSecond]
  omega

/-- The canonical text is what a clock of universal time shows. -/
theorem write_eq (i : Instant) : i.write = i.reading 0 (writeFraction (i.nano % second)) ++ ['Z'] := by
  simp [write, reading, writeTime, writeClock, localDay_zero, localSecond_zero]

/-- A clock of universal time shows every instant. -/
theorem Spelled.universal {i : Instant} {fraction : List Char}
    (places : SpelledFraction (i.nano % second) fraction) :
    i.Spelled (i.reading 0 fraction ++ ['Z']) := by
  refine .reading ?_ ?_ places .universal
  · rw [localDay_zero]
    exact i.fits.firstDay_le
  · rw [localDay_zero]
    exact i.fits.le_lastDay

theorem spelled_write (i : Instant) : i.Spelled i.write := by
  have nanos : i.nano % second < second := Nat.mod_lt _ (by decide)
  rw [write_eq]
  exact .universal (spelledFraction_write nanos)

end Instant

end

end FleetHealth.Time

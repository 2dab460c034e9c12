import FleetHealth.Time.Calendar

/-!
Instants: points of universal time to the nanosecond, with leap seconds.

An `Instant` is a day, a second of that day and a nanosecond count. A count of a full second or more
stands for the leap second that follows the last second of a minute, so each instant has one
representation and equality of instants is equality of values.
-/

namespace FleetHealth.Time

/-- The day of the earliest date that an instant can have, the first of January of year -262143. -/
def firstDay : Int := -96465292

/-- The day of the latest date that an instant can have, the last of December of year 262142. -/
def lastDay : Int := 95026236

/-- The nanoseconds of a second. -/
def second : Nat := 1000000000

/-- What the parts of an instant have to satisfy. -/
structure Instant.Fits (day : Int) (secondOfDay nano : Nat) : Prop where
  firstDay_le : firstDay ≤ day
  le_lastDay : day ≤ lastDay
  secondOfDay_lt : secondOfDay < 86400
  nano_lt : nano < 2 * second
  leap : second ≤ nano → secondOfDay % 60 = 59

instance (day : Int) (secondOfDay nano : Nat) : Decidable (Instant.Fits day secondOfDay nano) :=
  decidable_of_iff (firstDay ≤ day ∧ day ≤ lastDay ∧ secondOfDay < 86400 ∧ nano < 2 * second ∧
      (second ≤ nano → secondOfDay % 60 = 59))
    ⟨fun ⟨a, b, c, d, e⟩ => ⟨a, b, c, d, e⟩, fun ⟨a, b, c, d, e⟩ => ⟨a, b, c, d, e⟩⟩

/-- A point of universal time: days since 1970-01-01, the second of the day, and nanoseconds after
that second. -/
structure Instant where
  day : Int
  secondOfDay : Nat
  nano : Nat
  fits : Instant.Fits day secondOfDay nano
  deriving DecidableEq

namespace Instant

/-- The instant with these parts, if there is one. -/
def of? (day : Int) (secondOfDay nano : Nat) : Option Instant :=
  if h : Fits day secondOfDay nano then some ⟨day, secondOfDay, nano, h⟩ else none

/-- The first instant of 1970. -/
def epoch : Instant := ⟨0, 0, 0, by decide⟩

instance : Inhabited Instant := ⟨epoch⟩

/-- The instant a count of seconds and nanoseconds after the epoch. -/
def ofUnix? (seconds : Int) (nano : Nat) : Option Instant :=
  of? (seconds / 86400) (seconds % 86400).toNat nano

/-- The instant at which a clock that runs `offset` seconds ahead shows the given parts. -/
def ofLocal? (day : Int) (secondOfDay nano : Nat) (offset : Int) : Option Instant :=
  let seconds : Int := secondOfDay - offset
  of? (day + seconds / 86400) (seconds % 86400).toNat nano

theorem of?_parts (i : Instant) : of? i.day i.secondOfDay i.nano = some i := by
  simp [of?, i.fits]

end Instant

end FleetHealth.Time

/-!
The Gregorian calendar, carried on before its introduction and beyond any written year.

A `Date` is a year, a month and a day; `Date.toDay` numbers dates by days since 1970-01-01 and
`Date.ofDay` names the date of a day. Both count years from March, so that the leap day comes last.
-/

namespace FleetHealth.Time

/-- A year, a month from one and a day from one; year zero comes before year one. -/
structure Date where
  year : Int
  month : Nat
  day : Nat
  deriving DecidableEq, Repr

/-- Every fourth year has a leap day, but of the full centuries only every fourth. -/
def isLeap (year : Int) : Bool :=
  year % 4 == 0 && (year % 100 != 0 || year % 400 == 0)

/-- The number of days of a month. -/
def daysInMonth (year : Int) (month : Nat) : Nat :=
  if month = 2 then (if isLeap year then 29 else 28)
  else if month = 4 ∨ month = 6 ∨ month = 9 ∨ month = 11 then 30
  else 31

/-- A date that the calendar has. -/
def Date.Valid (d : Date) : Prop :=
  1 ≤ d.month ∧ d.month ≤ 12 ∧ 1 ≤ d.day ∧ d.day ≤ daysInMonth d.year d.month

instance (d : Date) : Decidable d.Valid :=
  inferInstanceAs (Decidable (_ ∧ _))

/-- Days from the first of March of year zero to the first of March of a year. -/
def daysToMarch (year : Int) : Int :=
  365 * year + year / 4 - year / 100 + year / 400

/-- Days from the first of March to the first of the month that comes `month` months later. -/
def daysToMonth (month : Nat) : Nat :=
  (153 * month + 2) / 5

/-- The day number of 1970-01-01, counted from the first of March of year zero. -/
def epochDay : Int := 719468

/-- Days from 1970-01-01 to a date. -/
def Date.toDay (d : Date) : Int :=
  let year := if d.month ≤ 2 then d.year - 1 else d.year
  let month := if d.month ≤ 2 then d.month + 9 else d.month - 3
  daysToMarch year + daysToMonth month + d.day - 1 - epochDay

/-- The date of a day, by days since 1970-01-01. A cycle of 400 years splits into four centuries,
a century into 25 spans of four years and a span into four years; the last part of each may be a
day longer than the others. -/
def Date.ofDay (day : Int) : Date :=
  let count := day + epochDay
  let cycle := count / 146097
  let inCycle := (count % 146097).toNat
  let century := min (inCycle / 36524) 3
  let inCentury := inCycle - 36524 * century
  let span := inCentury / 1461
  let inSpan := inCentury - 1461 * span
  let year := min (inSpan / 365) 3
  let inYear := inSpan - 365 * year
  let month := (5 * inYear + 2) / 153
  let march : Int := 400 * cycle + 100 * century + 4 * span + year
  { year := if month < 10 then march else march + 1
    month := if month < 10 then month + 3 else month - 9
    day := inYear - daysToMonth month + 1 }

end FleetHealth.Time

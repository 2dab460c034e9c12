import FleetHealth.Decimal.Digits
import FleetHealth.Time.Instant

/-!
The canonical text of an instant.

`Instant.write` gives the date, a `T`, the time of day and a `Z`. A year beyond four digits, or
before year zero, has a sign; a fraction has the fewest of three, six or nine places that are
exact; a leap second is second 60.
-/

namespace FleetHealth.Time

open FleetHealth.Decimal

/-- Four digits, or a sign and at least four digits. -/
def writeYear (year : Int) : List Char :=
  match year with
  | .ofNat n => if n ≤ 9999 then padded 4 n else '+' :: padded 4 n
  | .negSucc n => '-' :: padded 4 (n + 1)

/-- A date, its parts joined by hyphens. -/
def Date.write (d : Date) : List Char :=
  writeYear d.year ++ '-' :: padded 2 d.month ++ '-' :: padded 2 d.day

/-- The places after the decimal point; nothing for a whole second. -/
def writeFraction (nano : Nat) : List Char :=
  if nano = 0 then []
  else if nano % 1000000 = 0 then '.' :: padded 3 (nano / 1000000)
  else if nano % 1000 = 0 then '.' :: padded 6 (nano / 1000)
  else '.' :: padded 9 nano

/-- The time of day, its parts joined by colons. -/
def writeTime (secondOfDay nano : Nat) : List Char :=
  let leap := nano / second
  padded 2 (secondOfDay / 3600) ++ ':' :: padded 2 (secondOfDay / 60 % 60) ++
    ':' :: padded 2 (secondOfDay % 60 + leap) ++ writeFraction (nano % second)

/-- The canonical text of an instant. -/
def Instant.write (i : Instant) : List Char :=
  (Date.ofDay i.day).write ++ 'T' :: writeTime i.secondOfDay i.nano ++ ['Z']

end FleetHealth.Time

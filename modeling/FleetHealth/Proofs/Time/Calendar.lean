import FleetHealth.Time.Instant
import Mathlib.Tactic.IntervalCases

/-!
The date of a day, and the day of a date.

`Date.ofDay` splits a day into cycle, century, span, year and a day counted from March. What the
split answers is said once (`ofDay_eq_ofMarch`); that every day has a date of the calendar
(`valid_ofDay`), which tells the day (`toDay_ofDay`), follows from it.
-/

namespace FleetHealth.Time

/-! ### Years in cycles, centuries and spans -/

theorem daysToMarch_split (cycle : Int) {century span year : Nat} (hc : century ≤ 3)
    (hs : span ≤ 24) (hy : year ≤ 3) :
    daysToMarch (400 * cycle + 100 * century + 4 * span + year) =
      146097 * cycle + 36524 * century + 1461 * span + 365 * year := by
  have fourths : (400 * cycle + 100 * century + 4 * span + year) / 4 =
      100 * cycle + 25 * century + span := by omega
  have hundredths : (400 * cycle + 100 * century + 4 * span + year) / 100 =
      4 * cycle + century := by omega
  have cycles : (400 * cycle + 100 * century + 4 * span + year) / 400 = cycle := by omega
  rw [daysToMarch, fourths, hundredths, cycles]
  omega

/-- After the last year of a span comes a leap year, unless the span is the last one of a century
and the century is not the last one of a cycle. -/
theorem isLeap_split (cycle : Int) {century span : Nat} (hs : span ≤ 24)
    (last : span = 24 → century = 3) :
    isLeap (400 * cycle + 100 * century + 4 * span + 3 + 1) = true := by
  simp only [isLeap, Bool.and_eq_true, Bool.or_eq_true, beq_iff_eq, bne_iff_ne]
  refine ⟨by omega, ?_⟩
  by_cases full : span = 24
  · exact .inr (by omega)
  · exact .inl (by omega)

namespace Date

/-! ### Days counted from March -/

/-- The date so many days after the first of March of a year. -/
def ofMarch (year : Int) (inYear : Nat) : Date :=
  let month := (5 * inYear + 2) / 153
  { year := if month < 10 then year else year + 1
    month := if month < 10 then month + 3 else month - 9
    day := inYear - daysToMonth month + 1 }

/-- A day has a year and a number in that year, both counted from March. Only a year that ends with
a leap day has a day 365. -/
theorem ofDay_eq_ofMarch (day : Int) :
    ∃ (year : Int) (inYear : Nat), ofDay day = ofMarch year inYear ∧
      day = daysToMarch year + inYear - epochDay ∧ inYear ≤ 365 ∧
      (inYear = 365 → isLeap (year + 1) = true) := by
  refine ⟨_, _, rfl, ?_⟩
  generalize hcycle : (day + epochDay) / 146097 = cycle
  generalize hinCycle : ((day + epochDay) % 146097).toNat = inCycle
  generalize hcentury : min (inCycle / 36524) 3 = century
  generalize hinCentury : inCycle - 36524 * century = inCentury
  generalize hspan : inCentury / 1461 = span
  generalize hinSpan : inCentury - 1461 * span = inSpan
  generalize hyear : min (inSpan / 365) 3 = year
  have hc : century ≤ 3 := by omega
  have hs : span ≤ 24 := by omega
  have hy : year ≤ 3 := by omega
  refine ⟨?_, by omega, fun last => ?_⟩
  · rw [daysToMarch_split cycle hc hs hy]
    omega
  · obtain rfl : year = 3 := by omega
    exact isLeap_split cycle hs (by omega)

theorem toDay_ofMarch (year : Int) {inYear : Nat} (h : inYear ≤ 365) :
    (ofMarch year inYear).toDay = daysToMarch year + inYear - epochDay := by
  simp only [ofMarch, toDay, daysToMonth]
  by_cases early : (5 * inYear + 2) / 153 < 10
  · have past : ¬ (5 * inYear + 2) / 153 + 3 ≤ 2 := by omega
    simp only [early, if_true, past, if_false, Nat.add_sub_cancel]
    omega
  · have next : (5 * inYear + 2) / 153 - 9 ≤ 2 := by omega
    simp only [early, if_false, next, if_true, Int.add_sub_cancel]
    omega

theorem valid_ofMarch (year : Int) {inYear : Nat} (h : inYear ≤ 365)
    (leap : inYear = 365 → isLeap (year + 1) = true) : (ofMarch year inYear).Valid := by
  obtain ⟨month, hm⟩ : ∃ month, (5 * inYear + 2) / 153 = month := ⟨_, rfl⟩
  have months : month ≤ 11 := by omega
  simp only [Valid, ofMarch, daysToMonth, hm]
  rcases Nat.eq_or_lt_of_le months with rfl | others
  · -- February comes last and has the leap day
    have short : isLeap (year + 1) = false → inYear ≠ 365 := by
      rintro common last
      rw [leap last] at common
      cases common
    cases hl : isLeap (year + 1) with
    | true =>
      simp [daysInMonth, hl]
      omega
    | false =>
      have := short hl
      simp [daysInMonth, hl]
      omega
  · interval_cases month <;> simp [daysInMonth] <;> omega

/-- Every day has a date of the calendar. -/
theorem valid_ofDay (day : Int) : (ofDay day).Valid := by
  obtain ⟨year, inYear, date, -, bound, leap⟩ := ofDay_eq_ofMarch day
  rw [date]
  exact valid_ofMarch year bound leap

/-- The date of a day tells the day. -/
theorem toDay_ofDay (day : Int) : (ofDay day).toDay = day := by
  obtain ⟨year, inYear, date, split, bound, -⟩ := ofDay_eq_ofMarch day
  rw [date, toDay_ofMarch year bound]
  exact split.symm

/-- The years of the days that an instant can have fit 32 bits. -/
theorem year_ofDay {day : Int} (first : firstDay ≤ day) (last : day ≤ lastDay) :
    -0x80000000 ≤ (ofDay day).year ∧ (ofDay day).year < 0x80000000 := by
  obtain ⟨year, inYear, date, split, bound, -⟩ := ofDay_eq_ofMarch day
  have march : (ofMarch year inYear).year = year ∨ (ofMarch year inYear).year = year + 1 :=
    ite_eq_or_eq ..
  simp only [firstDay] at first
  simp only [lastDay] at last
  simp only [epochDay, daysToMarch] at split
  rw [date]
  omega

end Date

end FleetHealth.Time

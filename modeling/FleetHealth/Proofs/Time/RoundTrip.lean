import FleetHealth.Proofs.Text.Reader
import FleetHealth.Proofs.Time.Local
import FleetHealth.Time.Reader

/-!
Times that are read back.

Each part of a spelling of an instant is read back by the reader of that part, and leaves what follows
it (`Reader.run_year`, `Reader.run_date`, `Reader.run_timeOfDay`, `Reader.run_offset`); together with
the calendar this gives `readInstant_spelled`, and with it that the canonical text is read back.
-/

namespace FleetHealth.Time

open FleetHealth.Text FleetHealth.Decimal

namespace Reader

variable {s : List Char} {n : Nat}

theorem isBlank_of_isDigit {c : Char} (h : c.isDigit) : isBlank c = false := by
  obtain ⟨n, hn, rfl⟩ := exists_digitChar_of_isDigit h
  revert n
  decide

/-- Digits are taken up to the greatest number of them, or to the first other character. -/
theorem run_digits {most : Nat} {ds : List Char} (nonempty : ds ≠ []) (all : ∀ c ∈ ds, c.isDigit)
    (most_le : ds.length ≤ most) (stops : ds.length = most ∨ Stops Char.isDigit s) :
    (digits most).run (ds ++ s) = .ok (ds, s) := by
  have taken : ((ds ++ s).take most).takeWhile Char.isDigit = ds := by
    rw [List.take_append, List.take_of_length_le most_le]
    refine Stops.takeWhile_append all ?_
    rcases stops with full | stops
    · rw [full, Nat.sub_self]
      exact .nil
    · intro c hc
      cases hn : most - ds.length with
      | zero => simp [hn] at hc
      | succ k => exact stops c (by simpa [hn, List.head?_take] using hc)
  rw [digits, Reader.run_bind_ok Reader.run_rest]
  simp only [taken, List.isEmpty_iff, nonempty, if_false]
  rw [Reader.run_bind_ok (Reader.run_drop _)]
  simp

theorem run_number {most : Nat} {ds : List Char} (nonempty : ds ≠ []) (all : ∀ c ∈ ds, c.isDigit)
    (most_le : ds.length ≤ most) (stops : ds.length = most ∨ Stops Char.isDigit s)
    (small : ofDigits ds < 0x8000000000000000) :
    (number most).run (ds ++ s) = .ok (ofDigits ds, s) := by
  rw [number, Reader.run_bind_ok (run_digits nonempty all most_le stops)]
  simp [small]

/-- Padded digits that fill their places. -/
theorem run_number_padded {width : Nat} (h : n < 10 ^ (width + 1))
    (small : n < 0x8000000000000000) :
    (number (width + 1)).run (padded (width + 1) n ++ s) = .ok (n, s) := by
  have len := length_padded h
  have read := run_number (s := s) (padded_ne_nil (width + 1) n)
    (fun _ hc => isDigit_of_mem_padded hc) (Nat.le_of_eq len) (.inl len)
  rw [ofDigits_padded] at read
  exact read small

theorem run_blanks (stops : Stops isBlank s) : blanks.run s = .ok ((), s) :=
  Reader.run_dropWhile (w := []) (fun _ h => (List.not_mem_nil h).elim) stops

theorem run_mark {c : Char} (hc : isBlank c = false) : (mark c).run (c :: s) = .ok ((), s) := by
  rw [mark, Reader.run_bind_ok (run_blanks (.cons hc)), Reader.run_bind_ok Reader.run_peek]
  simp

theorem stops_padded (width n : Nat) (s : List Char) : Stops isBlank (padded width n ++ s) :=
  .append (padded_ne_nil width n)
    (fun _ hc => isBlank_of_isDigit (isDigit_of_mem_padded hc)) s

theorem run_part {least greatest : Nat} (h : least ≤ n) (h' : n ≤ greatest) (two : greatest < 100) :
    (part least greatest).run (padded 2 n ++ s) = .ok (n, s) := by
  have read : (number 2).run (padded 2 n ++ s) = .ok (n, s) :=
    run_number_padded (by omega) (by omega)
  rw [part, Reader.run_bind_ok (run_blanks (stops_padded 2 n s)), Reader.run_bind_ok read]
  simp [h, h']

/-! ### Dates -/

/-- The digits of a year, up to the first other character. -/
theorem run_number_year {n all : Nat} (small : n ≤ 0x80000000) (enough : (padded 4 n).length ≤ all)
    (stops : Stops Char.isDigit s) : (number all).run (padded 4 n ++ s) = .ok (n, s) := by
  have read := run_number (padded_ne_nil 4 n) (fun _ hc => isDigit_of_mem_padded hc) enough
    (.inr stops)
  rw [ofDigits_padded] at read
  exact read (by omega)

theorem run_signed_minus {n : Nat} (small : n ≤ 0x80000000) (stops : Stops Char.isDigit s) :
    signed.run ('-' :: (padded 4 n ++ s)) = .ok (-n, s) := by
  have read : (number ('-' :: (padded 4 n ++ s)).length).run (padded 4 n ++ s) = .ok (n, s) :=
    run_number_year small (by simp; omega) stops
  rw [signed, Reader.run_bind_ok Reader.run_rest, Reader.run_bind_ok Reader.run_peek]
  simp only [List.head?_cons]
  rw [Reader.run_bind_ok Reader.run_skip_cons, Reader.run_bind_ok read, Reader.run_pure]

theorem run_signed_plus {n : Nat} (small : n ≤ 0x80000000) (stops : Stops Char.isDigit s) :
    signed.run ('+' :: (padded 4 n ++ s)) = .ok (n, s) := by
  have read : (number ('+' :: (padded 4 n ++ s)).length).run (padded 4 n ++ s) = .ok (n, s) :=
    run_number_year small (by simp; omega) stops
  rw [signed, Reader.run_bind_ok Reader.run_rest, Reader.run_bind_ok Reader.run_peek]
  simp only [List.head?_cons]
  rw [Reader.run_bind_ok Reader.run_skip_cons, Reader.run_bind_ok read, Reader.run_pure]

theorem run_signed_digits {n : Nat} (four : n ≤ 9999) :
    signed.run (padded 4 n ++ s) = .ok (n, s) := by
  have read : (number 4).run (padded 4 n ++ s) = .ok (n, s) :=
    run_number_padded (by omega) (by omega)
  obtain ⟨c, cs, digits⟩ := List.exists_cons_of_ne_nil (padded_ne_nil 4 n)
  have digit : c.isDigit := isDigit_of_mem_padded (digits ▸ List.mem_cons_self)
  have first : (padded 4 n ++ s).head? = some c := by simp [digits]
  rw [signed, Reader.run_bind_ok Reader.run_rest, Reader.run_bind_ok Reader.run_peek]
  split
  · next sign =>
    cases first.symm.trans sign
    cases digit
  · next sign =>
    cases first.symm.trans sign
    cases digit
  · rw [Reader.run_bind_ok read, Reader.run_pure]

/-- A year is read back, be it in four digits or with a sign. -/
theorem run_signed {y : Int} (least : -0x80000000 ≤ y) (greatest : y < 0x80000000)
    (stops : Stops Char.isDigit s) : signed.run (writeYear y ++ s) = .ok (y, s) := by
  cases y with
  | negSucc n => exact run_signed_minus (n := n + 1) (by omega) stops
  | ofNat n =>
    rw [writeYear]
    split
    · next four => exact run_signed_digits four
    · exact run_signed_plus (Int.ofNat_le.1 (Int.le_of_lt greatest)) stops

theorem stops_writeYear (y : Int) (s : List Char) : Stops isBlank (writeYear y ++ s) := by
  cases y with
  | negSucc n => exact .cons rfl
  | ofNat n =>
    rw [writeYear]
    split
    · exact stops_padded 4 n s
    · exact .cons rfl

theorem run_year {y : Int} (least : -0x80000000 ≤ y) (greatest : y < 0x80000000)
    (stops : Stops Char.isDigit s) : year.run (writeYear y ++ s) = .ok (y, s) := by
  rw [year, Reader.run_bind_ok (run_blanks (stops_writeYear y s)),
    Reader.run_bind_ok (run_signed least greatest stops), if_pos ⟨least, greatest⟩, Reader.run_pure]

/-- A date is read back, part by part. -/
theorem run_date {d : Date} (valid : d.Valid) (least : -0x80000000 ≤ d.year)
    (greatest : d.year < 0x80000000) : date.run (d.write ++ s) = .ok (d, s) := by
  obtain ⟨m₁, m₂, d₁, d₂⟩ := valid
  have month : daysInMonth d.year d.month ≤ 31 := by
    simp only [daysInMonth]
    split
    · split <;> decide
    · split <;> decide
  have text : d.write ++ s = writeYear d.year ++ ('-' :: (padded 2 d.month ++
      ('-' :: (padded 2 d.day ++ s)))) := by
    simp [Date.write]
  rw [text, date, Reader.run_bind_ok (run_year least greatest (.cons rfl)),
    Reader.run_bind_ok (run_mark rfl), Reader.run_bind_ok (run_part m₁ m₂ (by decide)),
    Reader.run_bind_ok (run_mark rfl),
    Reader.run_bind_ok (run_part d₁ (Nat.le_trans d₂ month) (by decide)), Reader.run_pure]

/-! ### Times of day -/

theorem run_divider : divider.run ('T' :: s) = .ok ((), s) := rfl

/-- Places are taken up to the ninth, and the others are left out. -/
theorem run_fraction {nano : Nat} {places : List Char} (spelled : SpelledFraction nano places)
    (stops : Stops Char.isDigit s) (noPoint : s.head? ≠ some '.') :
    fraction.run (places ++ s) = .ok (nano, s) := by
  cases spelled with
  | whole =>
    rw [fraction, List.nil_append, Reader.run_bind_ok Reader.run_peek, if_neg noPoint,
      Reader.run_pure]
  | @point _ ds some all value =>
    have first : ds.take 9 ≠ [] := by simpa using some
    have full : (ds.take 9).length = 9 ∨ Stops Char.isDigit (ds.drop 9 ++ s) := by
      rcases Nat.lt_or_ge ds.length 9 with few | many
      · rw [List.drop_eq_nil_of_le few.le]
        exact .inr stops
      · exact .inl (List.length_take_of_le many)
    have read := run_digits first (fun c hc => all c (List.mem_of_mem_take hc))
      (List.length_take_le 9 ds) full
    rw [← List.append_assoc, List.take_append_drop] at read
    have rest : (Reader.dropWhile Char.isDigit : Reader _).run (ds.drop 9 ++ s) = .ok ((), s) :=
      Reader.run_dropWhile (fun c hc => all c (List.mem_of_mem_drop hc)) stops
    rw [List.cons_append, fraction, Reader.run_bind_ok Reader.run_peek, List.head?_cons, if_pos rfl,
      Reader.run_bind_ok Reader.run_skip_cons, Reader.run_bind_ok read, Reader.run_bind_ok rest,
      Reader.run_pure, ← nanoseconds_eq, value]

/-- Second 60 stands for the second before it with a nanosecond count of a full second or more. -/
theorem run_timeOfDay {secondOfDay nano : Nat} {places : List Char} (day : secondOfDay < 86400)
    (below : nano < 2 * second) (leap : second ≤ nano → secondOfDay % 60 = 59)
    (spelled : SpelledFraction (nano % second) places) (stops : Stops Char.isDigit s)
    (blank : Stops isBlank s) (noPoint : s.head? ≠ some '.') :
    timeOfDay.run (writeClock secondOfDay (nano / second) ++ (places ++ s)) =
      .ok ((secondOfDay, nano), s) := by
  have text : writeClock secondOfDay (nano / second) ++ (places ++ s) =
      padded 2 (secondOfDay / 3600) ++ (':' :: (padded 2 (secondOfDay / 60 % 60) ++ (':' ::
        (padded 2 (secondOfDay % 60 + nano / second) ++ (places ++ s))))) := by
    simp [writeClock]
  -- either the nanoseconds stay below a second, or the second is the last one of a minute
  have split : nano / second = 0 ∧ nano % second = nano ∨
      nano / second = 1 ∧ second + nano % second = nano ∧ secondOfDay % 60 = 59 := by
    simp only [second] at *
    omega
  rw [text, timeOfDay, Reader.run_bind_ok (run_part (Nat.zero_le _) (by omega) (by decide)),
    Reader.run_bind_ok (run_mark rfl),
    Reader.run_bind_ok (run_part (Nat.zero_le _) (by omega) (by decide)),
    Reader.run_bind_ok (run_mark rfl),
    Reader.run_bind_ok (run_part (Nat.zero_le _) (by omega) (by decide)),
    Reader.run_bind_ok (run_fraction spelled stops noPoint), Reader.run_bind_ok (run_blanks blank),
    Reader.run_pure]
  rcases split with ⟨zero, rest⟩ | ⟨one, rest, last⟩
  · have start : 3600 * (secondOfDay / 3600) + 60 * (secondOfDay / 60 % 60) + secondOfDay % 60 =
        secondOfDay := by omega
    rw [zero, rest, Nat.add_zero, if_neg (by omega), start]
  · have start : 3600 * (secondOfDay / 3600) + 60 * (secondOfDay / 60 % 60) + 59 =
        secondOfDay := by omega
    rw [one, rest, last, if_pos rfl, start]

/-! ### Offsets -/

/-- Two digits are taken if the first of them is in bounds. -/
theorem run_offsetPart {tens : Nat} (h : n < 10 * (tens + 1)) (two : tens ≤ 9) :
    (offsetPart tens).run (padded 2 n ++ s) = .ok (n, s) := by
  have length : (padded 2 n).length = 2 := length_padded (show n < 100 by omega)
  have value := ofDigits_padded 2 n
  have digit (c : Char) (hc : c ∈ padded 2 n) : c.isDigit = true := isDigit_of_mem_padded hc
  obtain ⟨a, b, pair⟩ : ∃ a b, padded 2 n = [a, b] := by
    match padded 2 n, length with
    | [a, b], _ => exact ⟨a, b, rfl⟩
  rw [pair] at value digit
  have first : digitValue a ≤ tens := by
    have sum : 10 * (10 * 0 + digitValue a) + digitValue b = n := value
    omega
  have both : (a.isDigit && b.isDigit) = true := by
    rw [digit a (by simp), digit b (by simp)]
    rfl
  rw [pair, offsetPart, Reader.run_bind_ok Reader.run_rest]
  simp only [List.cons_append, List.nil_append, List.take_succ_cons, List.take_zero, both, if_true,
    first]
  rw [Reader.run_bind_ok (Reader.run_drop _), value]
  rfl

theorem run_offsetTime {minutes : Nat} (day : minutes < 1440) :
    offsetTime.run (writeHours minutes ++ s) = .ok (60 * minutes, s) := by
  have mark : Stops (fun c => c == ':' || isBlank c) (padded 2 (minutes % 60) ++ s) := by
    refine .append (padded_ne_nil _ _) (fun c hc => ?_) s
    have digit : c.isDigit := isDigit_of_mem_padded hc
    rw [isBlank_of_isDigit digit, Bool.or_false, beq_eq_false_iff_ne]
    rintro rfl
    cases digit
  have colon : (Reader.dropWhile fun c => c == ':' || isBlank c : Reader _).run
      ([':'] ++ (padded 2 (minutes % 60) ++ s)) = .ok ((), padded 2 (minutes % 60) ++ s) :=
    Reader.run_dropWhile (List.forall_mem_singleton.2 rfl) mark
  have text : writeHours minutes ++ s =
      padded 2 (minutes / 60) ++ ([':'] ++ (padded 2 (minutes % 60) ++ s)) := by
    simp [writeHours]
  rw [text, offsetTime, Reader.run_bind_ok (run_offsetPart (by omega) (by decide)),
    Reader.run_bind_ok colon, Reader.run_bind_ok (run_offsetPart (by omega) (by decide)),
    Reader.run_pure]
  congr 2
  omega

/-- An offset is read in seconds. -/
theorem run_offset {minutes : Int} {zone : List Char} (spelled : SpelledOffset minutes zone) :
    offset.run (zone ++ s) = .ok (60 * minutes, s) := by
  have other {c : Char} (hc : c.toUpper ≠ 'U') (s : List Char) :
      ((c :: s).take 3).map Char.toUpper ≠ ['U', 'T', 'C'] := by
    rw [List.take_succ_cons, List.map_cons]
    exact fun same => hc (List.cons.inj same).1
  cases spelled with
  | universal =>
    rw [List.cons_append, offset, Reader.run_bind_ok Reader.run_rest, if_neg (other (by decide) _),
      Reader.run_bind_ok Reader.run_peek]
    rfl
  | ahead day =>
    rw [List.cons_append, offset, Reader.run_bind_ok Reader.run_rest, if_neg (other (by decide) _),
      Reader.run_bind_ok Reader.run_peek]
    simp only [List.head?_cons]
    rw [Reader.run_bind_ok Reader.run_skip_cons, Reader.run_bind_ok (run_offsetTime day),
      Reader.run_pure]
    congr 2
  | behind day =>
    rw [List.cons_append, offset, Reader.run_bind_ok Reader.run_rest, if_neg (other (by decide) _),
      Reader.run_bind_ok Reader.run_peek]
    simp only [List.head?_cons]
    rw [Reader.run_bind_ok Reader.run_skip_cons, Reader.run_bind_ok (run_offsetTime day),
      Reader.run_pure]
    congr 2
    omega

end Reader

/-! ### Whole texts -/

/-- What stands behind the places of a second: no digit, no blank and no point. -/
theorem SpelledOffset.opens {minutes : Int} {zone : List Char} (h : SpelledOffset minutes zone) :
    Stops Char.isDigit zone ∧ Stops isBlank zone ∧ zone.head? ≠ some '.' := by
  cases h with
  | universal | ahead | behind => exact ⟨.cons rfl, .cons rfl, by simp⟩

/-- An instant is the one that a clock shows which runs so many minutes ahead. -/
theorem Instant.ofParts_local (i : Instant) {minutes : Int} (first : firstDay ≤ i.localDay minutes)
    (last : i.localDay minutes ≤ lastDay) (least : -1440 < minutes) (greatest : minutes < 1440) :
    ofParts (Date.ofDay (i.localDay minutes)) (i.localSecond minutes, i.nano) (60 * minutes) =
      .ok i := by
  have ⟨_, _, seconds, _, _⟩ := i.fits
  have day : i.localDay minutes + ((i.localSecond minutes : Int) - 60 * minutes) / 86400 = i.day := by
    rw [localDay, localSecond]
    omega
  have secondOfDay : (((i.localSecond minutes : Int) - 60 * minutes) % 86400).toNat =
      i.secondOfDay := by
    rw [localSecond]
    omega
  rw [ofParts, Date.toDay_ofDay, if_pos ⟨Date.valid_ofDay _, first, last, by omega, by omega⟩,
    ofLocal?, day, secondOfDay, of?_parts]

/-- Every spelling of an instant is read as the instant. -/
theorem readInstant_spelled {i : Instant} {s : List Char} (spelled : i.Spelled s) :
    readInstant s = .ok i := by
  obtain @⟨minutes, places, zone, first, last, fraction, offset⟩ := spelled
  have ⟨_, _, seconds, nanos, leap⟩ := i.fits
  obtain ⟨least, greatest⟩ := Date.year_ofDay first last
  obtain ⟨stops, blank, noPoint⟩ := offset.opens
  have localSecond : i.localSecond minutes < 86400 ∧
      i.localSecond minutes % 60 = i.secondOfDay % 60 := by
    rw [Instant.localSecond]
    omega
  have text : i.reading minutes places ++ zone = (Date.ofDay (i.localDay minutes)).write ++
      ('T' :: (writeClock (i.localSecond minutes) (i.nano / second) ++ (places ++ zone))) := by
    simp [Instant.reading]
  have zoned : Reader.offset.run zone = .ok (60 * minutes, []) := by
    have read := Reader.run_offset (s := []) offset
    rwa [List.append_nil] at read
  have parts : Reader.parts.run (i.reading minutes places ++ zone) =
      .ok ((Date.ofDay (i.localDay minutes), (i.localSecond minutes, i.nano), 60 * minutes), []) := by
    rw [text, Reader.parts,
      Reader.run_bind_ok (Reader.run_date (Date.valid_ofDay _) least greatest),
      Reader.run_bind_ok Reader.run_divider,
      Reader.run_bind_ok (Reader.run_timeOfDay localSecond.1 nanos
        (fun h => localSecond.2.trans (leap h)) fraction stops blank noPoint),
      Reader.run_bind_ok zoned, Reader.run_bind_ok (Reader.run_blanks .nil)]
    rfl
  rw [readInstant, parts]
  exact i.ofParts_local first last offset.bounds.1 offset.bounds.2

/-- The canonical text of an instant is read back. -/
theorem readInstant_write (i : Instant) : readInstant i.write = .ok i :=
  readInstant_spelled i.spelled_write

end FleetHealth.Time

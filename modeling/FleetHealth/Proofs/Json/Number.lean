import FleetHealth.Json.Number
import FleetHealth.Proofs.Json.Marks
import Mathlib.Data.List.Basic

/-!
Natural numbers that are read back.

The digits of a number are read as a number if what follows them does not go on with it
(`Settled`): no digit, no point and no exponent.
-/

namespace FleetHealth.Json

open FleetHealth.Text FleetHealth.Decimal

/-- The character goes on with a number. -/
def continuesNumber (c : Char) : Bool :=
  c.isDigit || c == '.' || c == 'e' || c == 'E'

/-- The text does not go on with a number that stands before it. -/
abbrev Settled (s : List Char) : Prop := Stops continuesNumber s

theorem isBlank_of_isDigit {c : Char} (h : c.isDigit) : isBlank c = false := by
  obtain ⟨n, hn, rfl⟩ := Decimal.exists_digitChar_of_isDigit h
  revert n
  decide

theorem settled_of_blank {w s : List Char} (blank : Blank w) (settled : Settled s) :
    Settled (w ++ s) := by
  cases w with
  | nil => exact settled
  | cons c w =>
    have first := blank c List.mem_cons_self
    simp only [isBlank, Bool.or_eq_true, beq_iff_eq] at first
    refine .cons ?_
    rcases first with ((rfl | rfl) | rfl) | rfl <;> rfl

theorem Bracket.settled (b : Bracket) (s : List Char) : Settled (b.close :: s) := by
  cases b with
  | list => exact .cons rfl
  | object => exact .cons rfl

/-- A lead that is not the first has a comma. -/
theorem Lead.settled {w : List Char} (lead : Lead false w) (s : List Char) : Settled (w ++ s) := by
  cases lead with
  | next before after =>
    rw [List.append_assoc]
    exact settled_of_blank before (.cons rfl)

namespace Reader

variable {s : List Char}

theorem stops_isDigit_of_settled (settled : Settled s) : Stops Char.isDigit s := by
  intro c hc
  have other := settled c hc
  simp only [continuesNumber, Bool.or_eq_false_iff] at other
  exact other.1.1.1

theorem run_digits {ds : List Char} (atEnd : Fault) (nonempty : ds ≠ [])
    (all : ∀ c ∈ ds, c.isDigit) (stops : Stops Char.isDigit s) :
    (digits atEnd).run (ds ++ s) = .ok (ds, s) := by
  rw [digits, Reader.run_bind_ok (Reader.run_takeWhile all stops)]
  simp [nonempty]

/-- A zero stands alone, and no other number begins with one. -/
theorem run_wholeDigits {ds : List Char} (atEnd : Fault) (nonempty : ds ≠ [])
    (all : ∀ c ∈ ds, c.isDigit) (zero : '0' ∈ ds.head? → ds = ['0'])
    (stops : Stops Char.isDigit s) : (wholeDigits atEnd).run (ds ++ s) = .ok (ds, s) := by
  rw [wholeDigits, Reader.run_bind_ok Reader.run_peek, List.head?_append_of_ne_nil _ nonempty]
  by_cases first : '0' ∈ ds.head?
  · obtain rfl := zero first
    rw [List.head?_cons, if_pos rfl, List.cons_append, List.nil_append,
      Reader.run_bind_ok Reader.run_skip_cons, Reader.run_bind_ok Reader.run_peek]
    cases s with
    | nil => rfl
    | cons c s => simp [stops c rfl]
  · rw [if_neg (mt Option.mem_def.2 first)]
    exact run_digits atEnd nonempty all stops

theorem run_wholeDigits_digits (n : Nat) (atEnd : Fault) (stops : Stops Char.isDigit s) :
    (wholeDigits atEnd).run (Decimal.digits n ++ s) = .ok (Decimal.digits n, s) := by
  refine run_wholeDigits atEnd (digits_ne_nil n) (fun _ hc => isDigit_of_mem_digits hc) ?_ stops
  intro first
  rw [eq_zero_of_head?_digits first, digits_zero]

theorem run_placeDigits (atEnd : Fault) (settled : Settled s) :
    (placeDigits atEnd).run s = .ok ([], s) := by
  have noPoint : s.head? ≠ some '.' := fun point => by cases settled _ point
  rw [placeDigits, Reader.run_bind_ok Reader.run_peek, if_neg noPoint, Reader.run_pure]

theorem run_exponent (atEnd : Fault) (settled : Settled s) :
    (exponent atEnd).run s = .ok (none, s) := by
  rw [exponent, Reader.run_bind_ok Reader.run_peek]
  split
  · next e => cases settled _ e
  · next e => cases settled _ e
  · rfl

theorem run_literal (n : Nat) (atEnd : Fault) (settled : Settled s) :
    (literal atEnd).run (Decimal.digits n ++ s) = .ok (⟨false, Decimal.digits n, [], none⟩, s) := by
  obtain ⟨c, cs, digits⟩ := List.exists_cons_of_ne_nil (digits_ne_nil n)
  have digit : c.isDigit := isDigit_of_mem_digits (digits ▸ List.mem_cons_self)
  have plus : ((Decimal.digits n ++ s).head? == some '-') = false := by
    rw [digits, List.cons_append, List.head?_cons]
    refine beq_eq_false_iff_ne.2 fun sign => ?_
    cases sign
    cases digit
  rw [literal, Reader.run_bind_ok Reader.run_peek]
  simp only [plus, Bool.false_eq_true, if_false]
  rw [Reader.run_bind_ok (run_wholeDigits_digits n atEnd (stops_isDigit_of_settled settled)),
    Reader.run_bind_ok (run_placeDigits atEnd settled),
    Reader.run_bind_ok (run_exponent atEnd settled), Reader.run_pure]

end Reader

/-- Only a literal without sign, places and exponent is a natural number, and only if it fits 64
bits. -/
theorem Literal.value_eq_natural {l : Literal} {n : UInt64} : l.value = .ok (.natural n) ↔
    ∃ whole, l = ⟨false, whole, [], none⟩ ∧ ofDigits whole < UInt64.size ∧
      n = .ofNat (ofDigits whole) := by
  obtain ⟨negative, whole, places, exponent⟩ := l
  rw [value]
  dsimp only
  split
  · next natural =>
    obtain ⟨integer, fits, sign⟩ := natural
    simp only [isInteger, Bool.and_eq_true, List.isEmpty_iff, Option.isNone_iff_eq_none] at integer
    obtain ⟨rfl, rfl⟩ := integer
    obtain rfl : negative = false := Bool.eq_false_iff.2 sign
    constructor
    · intro same
      cases same
      exact ⟨whole, rfl, fits, rfl⟩
    · rintro ⟨whole, same, -, rfl⟩
      cases same
      rfl
  · next other =>
    have no : ¬ ∃ ds, (⟨negative, whole, places, exponent⟩ : Literal) = ⟨false, ds, [], none⟩ ∧
        ofDigits ds < UInt64.size ∧ n = .ofNat (ofDigits ds) := by
      rintro ⟨ds, same, fits, -⟩
      cases same
      exact other ⟨rfl, fits, by decide⟩
    refine iff_of_false ?_ no
    split
    · exact fun same => by cases same
    · split
      · exact fun same => by cases same
      · exact fun same => by cases same

/-- The digits of a number of 64 bits stand for it. -/
theorem Literal.value_digits {n : Nat} (h : n < UInt64.size) :
    Literal.value ⟨false, Decimal.digits n, [], none⟩ = .ok (.natural n.toUInt64) :=
  value_eq_natural.2 ⟨_, rfl, by rwa [ofDigits_digits], by rw [ofDigits_digits]⟩

/-- A natural number of 64 bits is read back from its digits. -/
theorem Reader.run_number (n : UInt64) {s : List Char} (settled : Settled s) :
    number.run (Decimal.digits n.toNat ++ s) = .ok (.natural n, s) := by
  rw [number, Reader.run_bind_ok (run_literal n.toNat _ settled),
    Literal.value_digits n.toNat_lt_size, Reader.run_ofExcept_ok]
  simp

end FleetHealth.Json

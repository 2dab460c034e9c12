/-!
Natural numbers in decimal digits.

`digits` writes a number without leading zeros, `padded` with at least a given count of digits, and
`ofDigits` reads digits back; `ofDigits_digits` and `ofDigits_padded` say that reading undoes both.
-/

namespace FleetHealth.Decimal

/-- The digit for a number below ten. -/
def digitChar (n : Nat) : Char :=
  Char.ofNat (48 + n)

/-- The number that a digit stands for. -/
def digitValue (c : Char) : Nat :=
  c.toNat - 48

/-- The decimal digits of a number, the most significant first and without leading zeros. -/
def digits (n : Nat) : List Char :=
  if n < 10 then [digitChar n] else digits (n / 10) ++ [digitChar (n % 10)]

/-- The decimal digits of a number, with zeros in front up to the given count. -/
def padded (width n : Nat) : List Char :=
  List.replicate (width - (digits n).length) '0' ++ digits n

/-- The number that a run of digits stands for; none stand for zero. -/
def ofDigits (ds : List Char) : Nat :=
  ds.foldl (fun n c => 10 * n + digitValue c) 0

/-! ### Reading back -/

theorem digitValue_digitChar {n : Nat} (h : n < 10) : digitValue (digitChar n) = n := by
  match n with
  | 0 | 1 | 2 | 3 | 4 | 5 | 6 | 7 | 8 | 9 => rfl
  | _ + 10 => omega

theorem isDigit_digitChar {n : Nat} (h : n < 10) : (digitChar n).isDigit := by
  match n with
  | 0 | 1 | 2 | 3 | 4 | 5 | 6 | 7 | 8 | 9 => rfl
  | _ + 10 => omega

theorem ofDigits_concat (ds : List Char) (c : Char) :
    ofDigits (ds ++ [c]) = 10 * ofDigits ds + digitValue c := by
  simp [ofDigits]

theorem ofDigits_digits (n : Nat) : ofDigits (digits n) = n := by
  fun_induction digits n with
  | case1 n h => simp [ofDigits, digitValue_digitChar h]
  | case2 n h ih =>
    rw [ofDigits_concat, ih, digitValue_digitChar (Nat.mod_lt _ (by decide))]
    omega

theorem isDigit_of_mem_digits {n : Nat} {c : Char} (h : c ∈ digits n) : c.isDigit := by
  fun_induction digits n with
  | case1 n hn => simp at h; exact h ▸ isDigit_digitChar hn
  | case2 n hn ih =>
    rcases List.mem_append.1 h with h | h
    · exact ih h
    · simp at h; exact h ▸ isDigit_digitChar (Nat.mod_lt _ (by decide))

theorem ofDigits_replicate_zero_append (k : Nat) (ds : List Char) :
    ofDigits (List.replicate k '0' ++ ds) = ofDigits ds := by
  induction k with
  | zero => rfl
  | succ k ih => rw [List.replicate_succ, List.cons_append]; exact ih

theorem ofDigits_padded (width n : Nat) : ofDigits (padded width n) = n := by
  rw [padded, ofDigits_replicate_zero_append, ofDigits_digits]

/-! ### The digits themselves -/

theorem exists_digitChar_of_isDigit {c : Char} (h : c.isDigit) : ∃ n < 10, digitChar n = c := by
  simp only [Char.isDigit, Bool.and_eq_true, decide_eq_true_eq, UInt32.le_iff_toNat_le] at h
  have least : 48 ≤ c.toNat := h.1
  have greatest : c.toNat ≤ 57 := h.2
  refine ⟨c.toNat - 48, by omega, ?_⟩
  rw [digitChar, Nat.add_sub_cancel' least, Char.ofNat_toNat]

theorem digits_zero : digits 0 = ['0'] := by
  rw [digits]
  rfl

theorem digits_ne_nil (n : Nat) : digits n ≠ [] := by
  rw [digits]
  split <;> simp

/-- Only zero has a leading zero. -/
theorem eq_zero_of_head?_digits {n : Nat} (h : (digits n).head? = some '0') : n = 0 := by
  fun_induction digits n with
  | case1 n hn =>
    match n with
    | 0 => rfl
    | 1 | 2 | 3 | 4 | 5 | 6 | 7 | 8 | 9 => simp [digitChar] at h
    | _ + 10 => omega
  | case2 n hn ih =>
    have first := List.head?_eq_some_head (digits_ne_nil (n / 10))
    rw [List.head?_append, first, Option.some_or] at h
    have := ih (first.trans h)
    omega

/-- A number below a power of ten has no more digits than the exponent. -/
theorem length_digits_le {n width : Nat} (h : n < Nat.pow 10 (width + 1)) :
    (digits n).length ≤ width + 1 := by
  induction width generalizing n with
  | zero =>
    rw [digits, if_pos h]
    simp
  | succ width ih =>
    rw [digits]
    split
    · simp
    · have h : n < 10 * Nat.pow 10 (width + 1) := Nat.mul_comm _ 10 ▸ h
      have := ih (Nat.div_lt_of_lt_mul h)
      simpa using this

theorem length_padded {n width : Nat} (h : n < Nat.pow 10 (width + 1)) :
    (padded (width + 1) n).length = width + 1 := by
  have := length_digits_le h
  simp only [padded, List.length_append, List.length_replicate]
  omega

theorem isDigit_of_mem_padded {width n : Nat} {c : Char} (h : c ∈ padded width n) : c.isDigit := by
  rcases List.mem_append.1 h with h | h
  · obtain rfl := List.eq_of_mem_replicate h
    rfl
  · exact isDigit_of_mem_digits h

theorem padded_ne_nil (width n : Nat) : padded width n ≠ [] := by
  simp [padded, digits_ne_nil]

end FleetHealth.Decimal

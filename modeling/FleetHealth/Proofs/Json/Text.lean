import FleetHealth.Json.Text
import FleetHealth.Json.Value
import FleetHealth.Proofs.Json.Marks

/-!
Texts that are read back.

A text is read back character by character: each one is taken off its escape (`textBody_escape`),
and the closing quote ends it.
-/

namespace FleetHealth.Json.Reader

open FleetHealth.Text

variable {s : List Char}

/-! ### Escapes -/

theorem hexValue?_hexDigit {n : Nat} (h : n < 16) : hexValue? (hexDigit n) = some n := by
  revert n
  decide

/-- The four digits of a control character. -/
theorem run_codeUnit_control {n : Nat} (h : n < 32) :
    codeUnit.run ('0' :: '0' :: hexDigit (n / 16) :: hexDigit (n % 16) :: s) = .ok (n, s) := by
  have zero : hexValue? '0' = some 0 := rfl
  have high := hexValue?_hexDigit (n := n / 16) (by omega)
  have low := hexValue?_hexDigit (n := n % 16) (by omega)
  have digits : ['0', '0', hexDigit (n / 16), hexDigit (n % 16)].mapM hexValue? =
      some [0, 0, n / 16, n % 16] := by
    simp [zero, high, low]
  have sum : ((0 * 16 + 0) * 16 + n / 16) * 16 + n % 16 = n := by omega
  rw [codeUnit, Reader.run_bind_ok Reader.run_rest]
  simp only [List.take_succ_cons, List.take_zero, digits]
  rw [Reader.run_bind_ok (Reader.run_drop 4), Reader.run_pure, sum]
  rfl

theorem run_scalar_control {c : Char} (h : c.toNat < 32) :
    scalar.run ('0' :: '0' :: hexDigit (c.toNat / 16) :: hexDigit (c.toNat % 16) :: s) =
      .ok (c, s) := by
  rw [scalar, Reader.run_bind_ok (run_codeUnit_control h), if_neg (by omega), if_neg (by omega),
    Reader.run_pure, Char.ofNat_toNat]

theorem textBody_backslash {unicode : Reader Char} {c : Char} {r : List Char}
    (h : (escape unicode).run s = .ok (c, r)) :
    textBody unicode ('\\' :: s) = (textBody unicode r).map fun (cs, t) => (c :: cs, t) := by
  rw [textBody, if_neg (by decide), if_pos rfl]
  split
  · next h' => cases h.symm.trans h'
  · next h' =>
    cases h.symm.trans h'
    rfl

theorem textBody_plain {unicode : Reader Char} {c : Char} (quote : c ≠ '"') (backslash : c ≠ '\\')
    (control : ¬ c < ' ') :
    textBody unicode (c :: s) = (textBody unicode s).map fun (cs, t) => (c :: cs, t) := by
  rw [textBody, if_neg quote, if_neg backslash, if_neg control]

/-- A character is taken off its escape. -/
theorem textBody_escape (c : Char) (s : List Char) :
    textBody scalar (Value.escape c ++ s) =
      (textBody scalar s).map fun (cs, t) => (c :: cs, t) := by
  rw [Value.escape]
  -- the characters with a short escape
  iterate 7
    split
    · next h =>
      subst h
      exact textBody_backslash rfl
  split
  · next control =>
    refine textBody_backslash ?_
    exact run_scalar_control control
  · next quote backslash _ _ _ _ _ control => exact textBody_plain quote backslash control

/-! ### Texts and keys -/

theorem textBody_flatMap_escape (cs : List Char) (s : List Char) :
    textBody scalar (cs.flatMap Value.escape ++ '"' :: s) = .ok (cs, s) := by
  induction cs with
  | nil => rw [List.flatMap_nil, List.nil_append, textBody, if_pos rfl]
  | cons c cs ih => rw [List.flatMap_cons, List.append_assoc, textBody_escape, ih]; rfl

/-- What stands between the quotes is read back. -/
theorem run_text (t : String) :
    text.run (t.toList.flatMap Value.escape ++ '"' :: s) = .ok (t, s) := by
  have body : (untilQuote scalar).run (t.toList.flatMap Value.escape ++ '"' :: s) =
      .ok (t.toList, s) := textBody_flatMap_escape t.toList s
  rw [text, Reader.run_bind_ok body, Reader.run_pure, String.ofList_toList]

end FleetHealth.Json.Reader

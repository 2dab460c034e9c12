import FleetHealth.Proofs.Json.Text
import FleetHealth.Proofs.Json.Tree

/-!
Texts and numbers that are taken off a document, however they are spelled.

A text is taken for its characters if it has any, and refused if half of a surrogate pair stands
alone (`textBody_scalar`); a text that is left out is never refused (`textBody_looseScalar`). A number
is taken as it is written (`run_literal_spelled`).
-/

namespace FleetHealth.Json.Reader

open FleetHealth.Text

/-! ### Escapes -/

section

variable {unicode : Reader Char} {s r : List Char} {a b c d e : Char} {u : Nat}

theorem escape_short (known : short? e = some c) : (escape unicode).run (e :: s) = .ok (c, s) := by
  rw [escape, Reader.run_bind_ok Reader.run_next_cons]
  unfold short? at known
  split at known <;> cases known <;> rfl

theorem escape_unicode : (escape unicode).run ('u' :: s) = unicode.run s := by
  rw [escape, Reader.run_bind_ok Reader.run_next_cons]
  rfl

theorem run_codeUnit (digits : unit? a b c d = some u) :
    codeUnit.run (a :: b :: c :: d :: s) = .ok (u, s) := by
  unfold unit? at digits
  split at digits
  · next i j k l hi hj hk hl =>
    cases digits
    have all : [a, b, c, d].mapM hexValue? = some [i, j, k, l] := by simp [hi, hj, hk, hl]
    rw [codeUnit, Reader.run_bind_ok Reader.run_rest]
    simp only [List.take_succ_cons, List.take_zero, all]
    rw [Reader.run_bind_ok (Reader.run_drop 4), Reader.run_pure]
    rfl
  · cases digits

theorem run_scalar_single (digits : unit? a b c d = some u) (high : ¬ IsHigh u) (low : ¬ IsLow u) :
    scalar.run (a :: b :: c :: d :: s) = .ok (Char.ofNat u, s) := by
  rw [scalar, Reader.run_bind_ok (run_codeUnit digits)]
  simp only [IsHigh, IsLow] at high low
  rw [if_neg low, if_neg high, Reader.run_pure]

theorem run_scalar_low (digits : unit? a b c d = some u) (low : IsLow u) :
    scalar.run (a :: b :: c :: d :: s) = .error .loneSurrogate := by
  rw [scalar, Reader.run_bind_ok (run_codeUnit digits)]
  simp only [IsLow] at low
  rw [if_pos low, Reader.run_fail]

theorem run_scalar_high (digits : unit? a b c d = some u) (high : IsHigh u) :
    scalar.run (a :: b :: c :: d :: s) =
      (do pure (paired u (← trailingUnit)) : Reader Char).run s := by
  rw [scalar, Reader.run_bind_ok (run_codeUnit digits)]
  simp only [IsHigh] at high
  rw [if_neg (by omega), if_pos high]
  rfl

theorem run_trailingUnit (digits : unit? a b c d = some u) (low : IsLow u) :
    trailingUnit.run ('\\' :: 'u' :: a :: b :: c :: d :: s) = .ok (u, s) := by
  rw [trailingUnit, Reader.run_bind_ok Reader.run_next_cons]
  simp only
  rw [Reader.run_bind_ok Reader.run_next_cons]
  simp only
  rw [Reader.run_bind_ok (run_codeUnit digits)]
  simp only [IsLow] at low
  rw [if_pos low, Reader.run_pure]

theorem run_trailingUnit_other (digits : unit? a b c d = some u) (low : ¬ IsLow u) :
    trailingUnit.run ('\\' :: 'u' :: a :: b :: c :: d :: s) = .error .loneSurrogate := by
  rw [trailingUnit, Reader.run_bind_ok Reader.run_next_cons]
  simp only
  rw [Reader.run_bind_ok Reader.run_next_cons]
  simp only
  rw [Reader.run_bind_ok (run_codeUnit digits)]
  simp only [IsLow] at low
  rw [if_neg low, Reader.run_fail]

theorem not_isLow_of_isHigh (high : IsHigh u) : ¬ IsLow u := by
  simp only [IsHigh, IsLow] at *
  omega

/-- Only the second half of a surrogate pair is taken for one. -/
theorem trailingUnit_refuses {m : Option (List Char)} (body : Body m s)
    (alone : ∀ {s' a b c d v}, s = '\\' :: 'u' :: a :: b :: c :: d :: s' →
      unit? a b c d = some v → ¬ IsLow v) :
    ∃ fault, trailingUnit.run (s ++ '"' :: r) = .error fault := by
  cases body with
  | nil => exact ⟨_, rfl⟩
  | @plain _ _ c quote backslash control more =>
    refine ⟨.unpairedSurrogate, ?_⟩
    rw [List.cons_append, trailingUnit, Reader.run_bind_ok Reader.run_next_cons]
    split
    · next ended => cases ended
    · next same => exact absurd (Option.some.inj same) backslash
    · rfl
  | @short _ _ e c known more =>
    refine ⟨.unpairedSurrogate, ?_⟩
    rw [List.cons_append, trailingUnit, Reader.run_bind_ok Reader.run_next_cons]
    simp only
    rw [List.cons_append, Reader.run_bind_ok Reader.run_next_cons]
    split
    · next ended => cases ended
    · next same =>
      cases same
      cases known
    · rfl
  | unit digits high low more => exact ⟨_, run_trailingUnit_other digits low⟩
  | pair digits high digits' low more =>
    exact ⟨_, run_trailingUnit_other digits (not_isLow_of_isHigh high)⟩
  | loneLow digits low more => exact absurd low (alone rfl digits)
  | loneHigh digits high alone' more =>
    exact ⟨_, run_trailingUnit_other digits (not_isLow_of_isHigh high)⟩

end

/-! ### Texts -/

section

variable {m : Option (List Char)} {s r : List Char}

theorem textBody_backslash_error {unicode : Reader Char} {fault : Fault}
    (h : (escape unicode).run s = .error fault) :
    textBody unicode ('\\' :: s) = .error fault := by
  rw [textBody, if_neg (by decide), if_pos rfl]
  split
  · next h' =>
    cases h.symm.trans h'
    rfl
  · next h' => cases h.symm.trans h'

theorem toOption_map {α β : Type} (f : α → β) (x : Except Fault α) :
    (x.map f).toOption = x.toOption.map f := by
  cases x <;> rfl

/-- A text is taken for its characters, if it has any. -/
theorem textBody_scalar (body : Body m s) :
    (textBody scalar (s ++ '"' :: r)).toOption = m.map (·, r) := by
  induction body with
  | nil =>
    rw [List.nil_append, textBody, if_pos rfl]
    rfl
  | plain quote backslash control more ih =>
    rw [List.cons_append, textBody_plain quote backslash control, toOption_map, ih, Option.map_map,
      Option.map_map]
    rfl
  | short known more ih =>
    rw [List.cons_append, List.cons_append, textBody_backslash (escape_short known), toOption_map,
      ih, Option.map_map, Option.map_map]
    rfl
  | unit digits high low more ih =>
    have character {s : List Char} := run_scalar_single (s := s) digits high low
    simp only [List.cons_append]
    rw [textBody_backslash (escape_unicode.trans character), toOption_map, ih, Option.map_map,
      Option.map_map]
    rfl
  | @pair m s a b c d a' b' c' d' u v digits high digits' low more ih =>
    have character : scalar.run (a :: b :: c :: d :: '\\' :: 'u' :: a' :: b' :: c' :: d' ::
        (s ++ '"' :: r)) = .ok (paired u v, s ++ '"' :: r) := by
      rw [run_scalar_high digits high, Reader.run_bind_ok (run_trailingUnit digits' low)]
      rfl
    simp only [List.cons_append]
    rw [textBody_backslash (escape_unicode.trans character), toOption_map, ih, Option.map_map,
      Option.map_map]
    rfl
  | loneLow digits low more ih =>
    simp only [List.cons_append]
    rw [textBody_backslash_error (escape_unicode.trans (run_scalar_low digits low))]
    rfl
  | @loneHigh m s a b c d u digits high alone more ih =>
    obtain ⟨fault, refused⟩ := trailingUnit_refuses (r := r) more alone
    have character : scalar.run (a :: b :: c :: d :: (s ++ '"' :: r)) = .error fault := by
      rw [run_scalar_high digits high, Reader.run_bind, refused]
    simp only [List.cons_append]
    rw [textBody_backslash_error (escape_unicode.trans character)]
    rfl

theorem run_looseScalar {a b c d : Char} {u : Nat} (digits : unit? a b c d = some u) :
    looseScalar.run (a :: b :: c :: d :: s) = .ok ('\ufffd', s) := by
  rw [looseScalar, Reader.run_bind_ok (run_codeUnit digits), Reader.run_pure]

theorem textBody_looseUnit {a b c d : Char} {u : Nat} (digits : unit? a b c d = some u) :
    textBody looseScalar ('\\' :: 'u' :: a :: b :: c :: d :: s) =
      (textBody looseScalar s).map fun (cs, t) => ('\ufffd' :: cs, t) :=
  textBody_backslash (escape_unicode.trans (run_looseScalar digits))

/-- A text that is left out is never refused. -/
theorem textBody_looseScalar (body : Body m s) :
    ∃ cs, textBody looseScalar (s ++ '"' :: r) = .ok (cs, r) := by
  induction body with
  | nil => exact ⟨[], by rw [List.nil_append, textBody, if_pos rfl]⟩
  | plain quote backslash control more ih =>
    obtain ⟨cs, taken⟩ := ih
    rw [List.cons_append, textBody_plain quote backslash control, taken]
    exact ⟨_, rfl⟩
  | short known more ih =>
    obtain ⟨cs, taken⟩ := ih
    rw [List.cons_append, List.cons_append, textBody_backslash (escape_short known), taken]
    exact ⟨_, rfl⟩
  | unit digits _ _ _ ih | loneLow digits _ _ ih | loneHigh digits _ _ _ ih =>
    obtain ⟨cs, taken⟩ := ih
    simp only [List.cons_append]
    rw [textBody_looseUnit digits, taken]
    exact ⟨_, rfl⟩
  | pair digits high digits' low more ih =>
    obtain ⟨cs, taken⟩ := ih
    simp only [List.cons_append]
    rw [textBody_looseUnit digits, textBody_looseUnit digits', taken]
    exact ⟨_, rfl⟩

theorem text_spelled {t : Option String} (spelled : SpelledText t s) :
    (text.run (s ++ '"' :: r)).toOption = t.map (·, r) := by
  obtain ⟨m, body, rfl⟩ := spelled
  have taken := textBody_scalar (r := r) body
  rw [text, Reader.run_bind, Option.map_map]
  simp only [untilQuote]
  cases h : textBody scalar (s ++ '"' :: r) with
  | error fault =>
    rw [h] at taken
    cases m with
    | none => rfl
    | some cs => cases taken
  | ok p =>
    rw [h] at taken
    cases m with
    | none => cases taken
    | some cs =>
      cases taken
      rfl

theorem run_looseText {t : Option String} (spelled : SpelledText t s) :
    looseText.run (s ++ '"' :: r) = .ok ((), r) := by
  obtain ⟨m, body, -⟩ := spelled
  obtain ⟨cs, taken⟩ := textBody_looseScalar (r := r) body
  exact Reader.run_bind_ok (x := untilQuote looseScalar) taken _

end

/-! ### Numbers -/

section

variable {s r : List Char}

/-- What may stand in place of an exponent goes on neither with digits nor with a point. -/
theorem stops_exponent {exponent : Option Exponent} (h : SpelledExponent exponent s)
    (settled : Settled r) : Stops (fun c => c.isDigit || c == '.') (s ++ r) := by
  cases h with
  | none =>
    intro c hc
    have other := settled c hc
    simp only [continuesNumber, Bool.or_eq_false_iff] at other ⊢
    exact other.1.1
  | some mark signed digits =>
    rcases mark with rfl | rfl <;> exact .cons rfl

theorem stops_isDigit {p : List Char} (h : Stops (fun c => c.isDigit || c == '.') p) :
    Stops Char.isDigit p := by
  intro c hc
  have other := h c hc
  simp only [Bool.or_eq_false_iff] at other
  exact other.1

theorem run_placeDigits_spelled {places : List Char} (h : SpelledPlaces places s) (atEnd : Fault)
    (stops : Stops (fun c => c.isDigit || c == '.') r) :
    (placeDigits atEnd).run (s ++ r) = .ok (places, r) := by
  cases h with
  | none =>
    have noPoint : r.head? ≠ some '.' := fun point => by cases stops _ point
    rw [List.nil_append, placeDigits, Reader.run_bind_ok Reader.run_peek, if_neg noPoint,
      Reader.run_pure]
  | point digits =>
    rw [List.cons_append, placeDigits, Reader.run_bind_ok Reader.run_peek, List.head?_cons,
      if_pos rfl, Reader.run_bind_ok Reader.run_skip_cons]
    exact run_digits atEnd digits.nonempty digits.all (stops_isDigit stops)

theorem run_exponentSign {negative : Bool} {sign ds : List Char} (h : SpelledSign negative sign)
    (digits : AreDigits ds) :
    exponentSign.run (sign ++ (ds ++ r)) = .ok (negative, ds ++ r) := by
  cases h with
  | without =>
    obtain ⟨c, cs, rfl⟩ := List.exists_cons_of_ne_nil digits.nonempty
    have digit := digits.all c List.mem_cons_self
    rw [exponentSign, Reader.run_bind_ok Reader.run_peek]
    simp only [List.nil_append, List.cons_append, List.head?_cons]
    split
    · next minus =>
      cases minus
      cases digit
    · next plus =>
      cases plus
      cases digit
    · rfl
  | plus | minus => rfl

theorem run_exponent_spelled {exponent : Option Exponent} (h : SpelledExponent exponent s)
    (atEnd : Fault) (settled : Settled r) :
    (Reader.exponent atEnd).run (s ++ r) = .ok (exponent, r) := by
  cases h with
  | none => exact run_exponent atEnd settled
  | @some e negative sign ds mark signed digits =>
    have taken : (Reader.digits atEnd).run (ds ++ r) = .ok (ds, r) :=
      run_digits atEnd digits.nonempty digits.all (stops_isDigit_of_settled settled)
    rw [List.cons_append, List.append_assoc, Reader.exponent, Reader.run_bind_ok Reader.run_peek]
    rcases mark with rfl | rfl <;>
    · simp only [List.head?_cons]
      rw [Reader.run_bind_ok Reader.run_skip_cons,
        Reader.run_bind_ok (run_exponentSign signed digits), Reader.run_bind_ok taken,
        Reader.run_pure]

/-- A number is taken as it is written, if what follows does not go on with it. -/
theorem run_literal_spelled {l : Literal} (h : SpelledNumber l s) (atEnd : Fault)
    (settled : Settled r) : (literal atEnd).run (s ++ r) = .ok (l, r) := by
  cases h with
  | @mk negative whole places point exponent power digits zero fraction scale =>
    have stops := stops_exponent scale settled
    have stops' : Stops Char.isDigit (point ++ (power ++ r)) := by
      cases fraction with
      | none => exact stops_isDigit stops
      | point => exact .cons rfl
    have whole' := run_wholeDigits atEnd digits.nonempty digits.all zero stops'
    have point' := run_placeDigits_spelled fraction atEnd stops
    have power' := run_exponent_spelled scale atEnd settled
    obtain ⟨c, cs, rfl⟩ := List.exists_cons_of_ne_nil digits.nonempty
    rw [List.cons_append] at whole'
    simp only [List.append_assoc]
    rw [literal, Reader.run_bind_ok Reader.run_peek]
    cases negative with
    | true =>
      simp only [signOf, if_true, List.cons_append, List.nil_append, List.head?_cons,
        beq_self_eq_true]
      rw [Reader.run_bind_ok Reader.run_skip_cons, Reader.run_bind_ok whole',
        Reader.run_bind_ok point', Reader.run_bind_ok power', Reader.run_pure]
    | false =>
      have plus : (some c == some '-') = false := by
        refine beq_eq_false_iff_ne.2 fun sign => ?_
        cases sign
        cases digits.all '-' List.mem_cons_self
      simp only [signOf, List.nil_append, List.cons_append, List.head?_cons, plus,
        Bool.false_eq_true, if_false]
      rw [Reader.run_bind_ok whole', Reader.run_bind_ok point', Reader.run_bind_ok power',
        Reader.run_pure]

end

end FleetHealth.Json.Reader

import FleetHealth.Json.LeftOut
import FleetHealth.Proofs.Json.Tokens

/-!
Marks, texts and numbers that have been taken off a document.

Each reader of a token takes nothing but a spelling of it off the front: blanks and a mark
(`colon_eq_ok`, `more?_eq_true`), the characters up to a quote (`textBody_eq_ok`), a number
(`literal_eq_ok`). No reader is asked what follows; a text may even end in the first half of a
surrogate pair (`Body.unit_cons`).
-/

namespace FleetHealth.Json

open FleetHealth.Text

/-! ### What may stand in a text -/

section

variable {p : List Char} {a b c d : Char} {u : Nat} {m : Option (List Char)}

/-- The second half of a surrogate pair, standing first, stands alone. -/
theorem Body.after_low (body : Body m ('\\' :: 'u' :: a :: b :: c :: d :: p))
    (digits : unit? a b c d = some u) (low : IsLow u) : ∃ m', Body m' p := by
  cases body with
  | plain _ backslash => exact absurd rfl backslash
  | short known => cases known
  | unit digits' _ low' more =>
    cases digits.symm.trans digits'
    exact absurd low low'
  | loneLow _ _ more => exact ⟨_, more⟩
  | pair digits' high | loneHigh digits' high =>
    cases digits.symm.trans digits'
    exact absurd low (Reader.not_isLow_of_isHigh high)

/-- A unit can stand before whatever a text goes on with. -/
theorem Body.unit_cons (digits : unit? a b c d = some u) (body : Body m p) :
    ∃ m', Body m' ('\\' :: 'u' :: a :: b :: c :: d :: p) := by
  by_cases low : IsLow u
  · exact ⟨none, .loneLow digits low body⟩
  · by_cases high : IsHigh u
    · by_cases alone : ∀ {s' a' b' c' d' v}, p = '\\' :: 'u' :: a' :: b' :: c' :: d' :: s' →
        unit? a' b' c' d' = some v → ¬ IsLow v
      · exact ⟨none, .loneHigh digits high alone body⟩
      · push Not at alone
        obtain ⟨s', a', b', c', d', v, rfl, digits', low'⟩ := alone
        obtain ⟨m', more⟩ := body.after_low digits' low'
        exact ⟨_, .pair digits high digits' low' more⟩
    · exact ⟨_, .unit digits high low body⟩

end

namespace Reader

variable {α β : Type}

/-! ### Marks -/

section

variable {s t r : List Char} {o : Option Char} {b : Bracket} {first : Bool}

/-- What two readers take one after the other. -/
theorem bind_eq_ok {x : Reader α} {f : α → Reader β} {c : β} (h : (x >>= f).run s = .ok (c, r)) :
    ∃ a t, x.run s = .ok (a, t) ∧ (f a).run t = .ok (c, r) := by
  rw [Reader.run_bind] at h
  split at h
  · cases h
  · next a t taken => exact ⟨a, t, taken, h⟩

/-- What stands behind a mapped result. -/
theorem map_eq_ok {x : Except Fault α} {f : α → β} {c : β} (h : x.map f = .ok c) :
    ∃ a, x = .ok a ∧ f a = c := by
  cases x with
  | error fault => cases h
  | ok a => exact ⟨a, rfl, Except.ok.inj h⟩

theorem blank_takeWhile (s : List Char) : Blank (s.takeWhile isBlank) :=
  List.all_eq_true.1 List.all_takeWhile

/-- What stands before the first character that is not blank. -/
theorem eq_append_of_dropWhile {c : Char} (h : s.dropWhile isBlank = c :: r) :
    ∃ w, s = w ++ c :: r ∧ Blank w :=
  ⟨s.takeWhile isBlank, by rw [← h, List.takeWhile_append_dropWhile], blank_takeWhile s⟩

theorem token_eq_ok (h : token.run s = .ok (o, t)) : ∃ w, s = w ++ t ∧ Blank w ∧ t.head? = o := by
  cases h
  exact ⟨s.takeWhile isBlank, List.takeWhile_append_dropWhile.symm, blank_takeWhile s, rfl⟩

/-- The next character that is not blank is left where it is. -/
theorem token_eq_some {c : Char} (h : token.run s = .ok (some c, t)) :
    ∃ w r, s = w ++ c :: r ∧ t = c :: r ∧ Blank w := by
  obtain ⟨w, rfl, blank, first⟩ := token_eq_ok h
  obtain ⟨r, rfl⟩ := List.head?_eq_some_iff.1 first
  exact ⟨w, r, rfl, rfl, blank⟩

theorem word_eq_ok {cs : List Char} {u : Unit} (h : (word cs).run s = .ok (u, r)) :
    s = cs ++ r := by
  induction cs generalizing s with
  | nil =>
    cases h
    rfl
  | cons c cs ih =>
    rw [word] at h
    obtain ⟨o, t, next, rest⟩ := bind_eq_ok h
    cases s with
    | nil =>
      cases next
      cases rest
    | cons d s =>
      cases next
      split at rest
      · next ended => cases ended
      · next found =>
        cases found
        split at rest
        · next same =>
          rw [List.tail_cons] at rest
          rw [ih rest, same, List.cons_append]
        · cases rest

theorem colon_eq_ok {u : Unit} (h : colon.run s = .ok (u, r)) :
    ∃ w, s = w ++ ':' :: r ∧ Blank w := by
  obtain ⟨o, t, found, rest⟩ := bind_eq_ok h
  obtain ⟨w, rfl, blank, first⟩ := token_eq_ok found
  split at rest
  · obtain ⟨r, rfl⟩ := List.head?_eq_some_iff.1 first
    cases rest
    exact ⟨w, rfl, blank⟩
  · cases rest
  · cases rest

theorem listEnd_eq_ok {u : Unit} (h : listEnd.run s = .ok (u, r)) :
    ∃ w, s = w ++ ']' :: r ∧ Blank w := by
  obtain ⟨o, t, found, rest⟩ := bind_eq_ok h
  obtain ⟨w, rfl, blank, first⟩ := token_eq_ok found
  split at rest
  · cases rest
  · obtain ⟨r, rfl⟩ := List.head?_eq_some_iff.1 first
    cases rest
    exact ⟨w, rfl, blank⟩
  · obtain ⟨_, t', _, rest'⟩ := bind_eq_ok rest
    obtain ⟨o, _, _, refused⟩ := bind_eq_ok rest'
    split at refused <;> cases refused
  · cases rest

theorem comma_eq_ok {u : Unit} (h : (comma b).run s = .ok (u, r)) :
    ∃ w, s = ',' :: (w ++ r) ∧ Blank w := by
  obtain ⟨o, t, found, rest⟩ := bind_eq_ok h
  cases found
  split at rest
  · next comma =>
    obtain ⟨s, rfl⟩ := List.head?_eq_some_iff.1 comma
    rw [Reader.run_bind_ok Reader.run_skip_cons] at rest
    obtain ⟨o, t, found, ended⟩ := bind_eq_ok rest
    obtain ⟨w, rfl, blank, -⟩ := token_eq_ok found
    split at ended
    · cases ended
    · split at ended
      · cases ended
      · cases ended
        exact ⟨w, rfl, blank⟩
  · cases rest

/-- Another element stands after a lead. -/
theorem more?_eq_true (h : (more? b first).run s = .ok (true, r)) :
    ∃ w, s = w ++ r ∧ Lead first w := by
  obtain ⟨o, t, found, rest⟩ := bind_eq_ok h
  obtain ⟨w, rfl, blank, -⟩ := token_eq_ok found
  split at rest
  · cases rest
  · split at rest
    · cases rest
    · cases first with
      | true =>
        cases rest
        exact ⟨w, rfl, .first blank⟩
      | false =>
        obtain ⟨_, t, comma, ended⟩ := bind_eq_ok rest
        cases ended
        obtain ⟨w', rfl, blank'⟩ := comma_eq_ok comma
        exact ⟨w ++ ',' :: w', by simp, .next blank blank'⟩

/-- No other element stands before the closing bracket. -/
theorem more?_eq_false (h : (more? b first).run s = .ok (false, r)) :
    ∃ w r', s = w ++ r ∧ r = b.close :: r' ∧ Blank w := by
  obtain ⟨o, t, found, rest⟩ := bind_eq_ok h
  obtain ⟨w, rfl, blank, head⟩ := token_eq_ok found
  split at rest
  · cases rest
  · split at rest
    · next same =>
      cases rest
      obtain ⟨r', rfl⟩ := List.head?_eq_some_iff.1 head
      exact ⟨w, r', rfl, by rw [same], blank⟩
    · cases first with
      | true => cases rest
      | false =>
        obtain ⟨_, t', _, ended⟩ := bind_eq_ok rest
        cases ended

end

/-! ### Texts -/

section

variable {s t r p : List Char} {a b c d : Char} {u : Nat} {m : Option (List Char)}

theorem codeUnit_eq_ok (h : codeUnit.run s = .ok (u, t)) :
    ∃ a b c d, s = a :: b :: c :: d :: t ∧ unit? a b c d = some u := by
  obtain ⟨_, _, found, rest⟩ := bind_eq_ok h
  cases found
  dsimp only at rest
  split at rest
  · next i j k l units =>
    obtain ⟨_, t', dropped, ended⟩ := bind_eq_ok rest
    cases dropped
    cases ended
    rcases s with _ | ⟨a, _ | ⟨b, _ | ⟨c, _ | ⟨d, s⟩⟩⟩⟩
    all_goals simp [Option.bind_eq_some_iff] at units
    exact ⟨a, b, c, d, rfl, by simp [unit?, units]⟩
  · split at rest <;> cases rest

theorem trailingUnit_eq_ok (h : trailingUnit.run s = .ok (u, t)) :
    ∃ a b c d, s = '\\' :: 'u' :: a :: b :: c :: d :: t ∧ unit? a b c d = some u := by
  obtain ⟨o, s', found, rest⟩ := bind_eq_ok h
  cases found
  split at rest
  · cases rest
  · next backslash =>
    obtain ⟨s, rfl⟩ := List.head?_eq_some_iff.1 backslash
    obtain ⟨o, s', found, rest⟩ := bind_eq_ok rest
    cases found
    split at rest
    · cases rest
    · next letter =>
      obtain ⟨s, rfl⟩ := List.head?_eq_some_iff.1 letter
      obtain ⟨low, s', taken, rest⟩ := bind_eq_ok rest
      obtain ⟨a, b, c, d, same, digits⟩ := codeUnit_eq_ok taken
      split at rest
      · cases rest
        exact ⟨a, b, c, d, congrArg ('\\' :: 'u' :: ·) same, digits⟩
      · cases rest
    · cases rest
  · cases rest

/-- What the reader takes may stand after a backslash and a `u`, whatever the text goes on with. -/
def Escapes (unicode : Reader Char) : Prop :=
  ∀ ⦃s c t⦄, unicode.run s = .ok (c, t) → ∃ p, s = p ++ t ∧
    ∀ ⦃m q⦄, Body m q → ∃ m', Body m' ('\\' :: 'u' :: (p ++ q))

theorem escapes_looseScalar : Escapes looseScalar := by
  intro s c t h
  obtain ⟨u, t', taken, rest⟩ := bind_eq_ok h
  obtain ⟨a, b, c, d, rfl, digits⟩ := codeUnit_eq_ok taken
  cases rest
  exact ⟨[a, b, c, d], rfl, fun m q body => body.unit_cons digits⟩

theorem escapes_scalar : Escapes scalar := by
  intro s c t h
  obtain ⟨u, t', taken, rest⟩ := bind_eq_ok h
  obtain ⟨a, b, c, d, rfl, digits⟩ := codeUnit_eq_ok taken
  split at rest
  · cases rest
  · split at rest
    · obtain ⟨v, t', taken', ended⟩ := bind_eq_ok rest
      obtain ⟨a', b', c', d', rfl, digits'⟩ := trailingUnit_eq_ok taken'
      obtain ⟨-, rfl⟩ := Prod.mk.inj (Except.ok.inj ended)
      refine ⟨[a, b, c, d, '\\', 'u', a', b', c', d'], rfl, fun m q body => ?_⟩
      obtain ⟨m', body'⟩ := body.unit_cons digits'
      exact body'.unit_cons digits
    · cases rest
      exact ⟨[a, b, c, d], rfl, fun m q body => body.unit_cons digits⟩

/-- A backslash stands before what may follow it. -/
theorem escape_eq_ok {unicode : Reader Char} (escapes : Escapes unicode)
    (h : (escape unicode).run s = .ok (c, t)) :
    ∃ p, s = p ++ t ∧ ∀ ⦃m q⦄, Body m q → ∃ m', Body m' ('\\' :: (p ++ q)) := by
  obtain ⟨o, t', found, rest⟩ := bind_eq_ok h
  cases found
  split at rest
  case h_1 | h_11 => cases rest
  case h_10 letter =>
    obtain ⟨s, rfl⟩ := List.head?_eq_some_iff.1 letter
    obtain ⟨p, same, body⟩ := escapes rest
    exact ⟨'u' :: p, congrArg ('u' :: ·) same, body⟩
  -- Any other letter stands for a character by itself.
  all_goals
    next letter =>
      obtain ⟨s, rfl⟩ := List.head?_eq_some_iff.1 letter
      cases rest
      exact ⟨[_], rfl, fun m q body => ⟨_, .short rfl body⟩⟩

/-- Up to the closing quote there is nothing but a text. -/
theorem textBody_eq_ok {unicode : Reader Char} (escapes : Escapes unicode) {cs : List Char}
    (h : textBody unicode s = .ok (cs, t)) : ∃ m p, s = p ++ '"' :: t ∧ Body m p := by
  fun_induction textBody unicode s generalizing cs t with
  | case1 => cases h
  | case2 r =>
    cases h
    exact ⟨_, [], rfl, .nil⟩
  | case3 => cases h
  | case4 r d r' taken _ _ ih =>
    obtain ⟨p, rfl, continued⟩ := escape_eq_ok escapes taken
    obtain ⟨⟨cs, t⟩, more, same⟩ := map_eq_ok h
    cases same
    obtain ⟨m, q, rfl, body⟩ := ih more
    obtain ⟨m', body⟩ := continued body
    exact ⟨m', '\\' :: (p ++ q), by simp, body⟩
  | case5 => cases h
  | case6 c r quote backslash control ih =>
    obtain ⟨⟨cs, t⟩, more, same⟩ := map_eq_ok h
    cases same
    obtain ⟨m, p, rfl, body⟩ := ih more
    exact ⟨_, c :: p, rfl, .plain quote backslash control body⟩

theorem text_eq_ok {k : String} (h : text.run s = .ok (k, t)) :
    ∃ v p, s = p ++ '"' :: t ∧ SpelledText v p := by
  obtain ⟨cs, t', taken, ended⟩ := bind_eq_ok h
  obtain ⟨m, p, rfl, body⟩ := textBody_eq_ok escapes_scalar taken
  cases ended
  exact ⟨_, p, rfl, m, body, rfl⟩

theorem looseText_eq_ok {i : Unit} (h : looseText.run s = .ok (i, t)) :
    ∃ v p, s = p ++ '"' :: t ∧ SpelledText v p := by
  obtain ⟨cs, t', taken, ended⟩ := bind_eq_ok h
  obtain ⟨m, p, rfl, body⟩ := textBody_eq_ok escapes_looseScalar taken
  cases ended
  exact ⟨_, p, rfl, m, body, rfl⟩

/-- A key stands in quotes, after a lead. -/
theorem key?_eq_some {first : Bool} {k : String} (h : (key? first).run s = .ok (some k, t)) :
    ∃ v w p, s = w ++ '"' :: (p ++ '"' :: t) ∧ Lead first w ∧ SpelledText v p := by
  obtain ⟨more, s', found, rest⟩ := bind_eq_ok h
  cases more with
  | false => cases rest
  | true =>
    obtain ⟨w, rfl, lead⟩ := more?_eq_true found
    obtain ⟨o, s'', peeked, rest⟩ := bind_eq_ok rest
    cases peeked
    split at rest
    · next quote =>
      obtain ⟨s, rfl⟩ := List.head?_eq_some_iff.1 quote
      rw [Reader.run_bind_ok Reader.run_skip_cons] at rest
      obtain ⟨k, s'', taken, ended⟩ := bind_eq_ok rest
      obtain ⟨v, p, rfl, spelled⟩ := text_eq_ok taken
      cases ended
      exact ⟨v, w, p, rfl, lead, spelled⟩
    · cases rest

/-- After the last key there is the closing bracket. -/
theorem key?_eq_none {first : Bool} (h : (key? first).run s = .ok (none, t)) :
    ∃ w r, s = w ++ t ∧ t = '}' :: r ∧ Blank w := by
  obtain ⟨more, s', found, rest⟩ := bind_eq_ok h
  cases more with
  | false =>
    cases rest
    exact more?_eq_false found
  | true =>
    obtain ⟨o, s'', peeked, rest⟩ := bind_eq_ok rest
    split at rest
    · obtain ⟨_, _, _, rest⟩ := bind_eq_ok rest
      obtain ⟨_, _, _, ended⟩ := bind_eq_ok rest
      cases ended
    · cases rest

end

/-! ### Numbers -/

section

variable {s r ds : List Char} {atEnd : Fault}

theorem digits_eq_ok (h : (digits atEnd).run s = .ok (ds, r)) : s = ds ++ r ∧ AreDigits ds := by
  obtain ⟨ds', t, taken, rest⟩ := bind_eq_ok h
  cases taken
  split at rest
  · obtain ⟨o, _, _, refused⟩ := bind_eq_ok rest
    split at refused <;> cases refused
  · next nonempty =>
    cases rest
    exact ⟨List.takeWhile_append_dropWhile.symm, by simpa using nonempty,
      List.all_eq_true.1 List.all_takeWhile⟩

/-- A zero in front stands alone. -/
theorem wholeDigits_eq_ok (h : (wholeDigits atEnd).run s = .ok (ds, r)) :
    s = ds ++ r ∧ AreDigits ds ∧ ('0' ∈ ds.head? → ds = ['0']) := by
  obtain ⟨o, t, peeked, rest⟩ := bind_eq_ok h
  cases peeked
  split at rest
  · next zero =>
    obtain ⟨s, rfl⟩ := List.head?_eq_some_iff.1 zero
    rw [Reader.run_bind_ok Reader.run_skip_cons] at rest
    obtain ⟨o, t, peeked, rest⟩ := bind_eq_ok rest
    cases peeked
    have alone : ds = ['0'] ∧ r = s := by
      split at rest
      · split at rest
        · cases rest
        · cases rest
          exact ⟨rfl, rfl⟩
      · cases rest
        exact ⟨rfl, rfl⟩
    obtain ⟨rfl, rfl⟩ := alone
    exact ⟨rfl, by decide, fun _ => rfl⟩
  · next other =>
    obtain ⟨rfl, digits⟩ := digits_eq_ok rest
    refine ⟨rfl, digits, fun zero => ?_⟩
    obtain ⟨ds, rfl⟩ := List.head?_eq_some_iff.1 zero
    exact absurd rfl other

theorem placeDigits_eq_ok (h : (placeDigits atEnd).run s = .ok (ds, r)) :
    ∃ point, s = point ++ r ∧ SpelledPlaces ds point := by
  obtain ⟨o, t, peeked, rest⟩ := bind_eq_ok h
  cases peeked
  split at rest
  · next point =>
    obtain ⟨s, rfl⟩ := List.head?_eq_some_iff.1 point
    rw [Reader.run_bind_ok Reader.run_skip_cons] at rest
    obtain ⟨rfl, digits⟩ := digits_eq_ok rest
    exact ⟨'.' :: ds, rfl, .point digits⟩
  · cases rest
    exact ⟨[], rfl, .none⟩

theorem exponentSign_eq_ok {negative : Bool} (h : exponentSign.run s = .ok (negative, r)) :
    ∃ sign, s = sign ++ r ∧ SpelledSign negative sign := by
  obtain ⟨o, t, peeked, rest⟩ := bind_eq_ok h
  cases peeked
  split at rest
  · next minus =>
    obtain ⟨s, rfl⟩ := List.head?_eq_some_iff.1 minus
    cases rest
    exact ⟨['-'], rfl, .minus⟩
  · next plus =>
    obtain ⟨s, rfl⟩ := List.head?_eq_some_iff.1 plus
    cases rest
    exact ⟨['+'], rfl, .plus⟩
  · cases rest
    exact ⟨[], rfl, .without⟩

theorem exponent_eq_ok {e : Option Exponent} (h : (exponent atEnd).run s = .ok (e, r)) :
    ∃ power, s = power ++ r ∧ SpelledExponent e power := by
  obtain ⟨o, t, peeked, rest⟩ := bind_eq_ok h
  cases peeked
  -- The mark is taken in the same way in either case.
  have marked {c : Char} (mark : c = 'e' ∨ c = 'E') (head : s.head? = some c)
      (rest : ((do
        Reader.skip
        let negative ← exponentSign
        pure (some ⟨negative, ← digits atEnd⟩)) : Reader (Option Exponent)).run s = .ok (e, r)) :
      ∃ power, s = power ++ r ∧ SpelledExponent e power := by
    obtain ⟨s, rfl⟩ := List.head?_eq_some_iff.1 head
    rw [Reader.run_bind_ok Reader.run_skip_cons] at rest
    obtain ⟨negative, t, before, after⟩ := bind_eq_ok rest
    obtain ⟨sign, rfl, signed⟩ := exponentSign_eq_ok before
    obtain ⟨ds, t', taken, ended⟩ := bind_eq_ok after
    obtain ⟨rfl, digits⟩ := digits_eq_ok taken
    cases ended
    exact ⟨c :: (sign ++ ds), by simp, .some mark signed digits⟩
  split at rest
  · next small => exact marked (.inl rfl) small rest
  · next large => exact marked (.inr rfl) large rest
  · cases rest
    exact ⟨[], rfl, .none⟩

/-- What stands after the sign of a number. -/
theorem unsigned_eq_ok {negative : Bool} {l : Literal}
    (h : ((do
      let whole ← wholeDigits atEnd
      let places ← placeDigits atEnd
      pure ⟨negative, whole, places, ← exponent atEnd⟩) : Reader Literal).run s = .ok (l, r)) :
    ∃ p, s = p ++ r ∧ SpelledNumber l (signOf negative ++ p) := by
  obtain ⟨whole, t, front, rest⟩ := bind_eq_ok h
  obtain ⟨rfl, digits, zero⟩ := wholeDigits_eq_ok front
  obtain ⟨places, t', middle, rest'⟩ := bind_eq_ok rest
  obtain ⟨point, rfl, fraction⟩ := placeDigits_eq_ok middle
  obtain ⟨e, t'', back, ended⟩ := bind_eq_ok rest'
  obtain ⟨power, rfl, scale⟩ := exponent_eq_ok back
  cases ended
  exact ⟨whole ++ (point ++ power), by simp, .mk digits zero fraction scale⟩

theorem literal_eq_ok {l : Literal} (h : (literal atEnd).run s = .ok (l, r)) :
    ∃ p, s = p ++ r ∧ SpelledNumber l p := by
  obtain ⟨o, t, peeked, rest⟩ := bind_eq_ok h
  cases peeked
  dsimp only at rest
  split at rest
  · next minus =>
    obtain ⟨s, rfl⟩ := List.head?_eq_some_iff.1 (beq_iff_eq.1 minus)
    rw [Reader.run_bind_ok Reader.run_skip_cons] at rest
    obtain ⟨p, rfl, spelled⟩ := unsigned_eq_ok rest
    exact ⟨'-' :: p, rfl, spelled⟩
  · next plus =>
    rw [Bool.not_eq_true] at plus
    rw [plus] at rest
    obtain ⟨p, rfl, spelled⟩ := unsigned_eq_ok rest
    exact ⟨p, rfl, spelled⟩

end

end Reader

end FleetHealth.Json

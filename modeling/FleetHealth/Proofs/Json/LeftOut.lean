import FleetHealth.Json.LeftOut
import FleetHealth.Proofs.Json.Tokens

/-!
Values that are left out, however they are spelled.

The walk over a value comes out right after it, inside the same brackets (`walk_spelled`); so any
value at all can be left out (`run_leftOut`), whatever its depth and its texts.
-/

namespace FleetHealth.Json.Reader

open FleetHealth.Text

section

variable {brackets outer : List Bracket} {b : Bracket} {w s r : List Char} {c : Char}

/-! ### Single steps of the walk -/

theorem dropWhile_isBlank (blank : Blank w) (hc : isBlank c = false) :
    (w ++ c :: r).dropWhile isBlank = c :: r :=
  (Stops.cons hc).dropWhile_append blank

theorem walk_after_comma (blank : Blank w) :
    walk .after (b :: outer) (w ++ ',' :: r) = walk b.element (b :: outer) r := by
  rw [walk]
  split
  · next h => cases (dropWhile_isBlank blank rfl).symm.trans h
  · next h =>
    cases (dropWhile_isBlank blank rfl).symm.trans h
    rw [if_pos rfl]

theorem walk_after_close (blank : Blank w) :
    walk .after (b :: outer) (w ++ b.close :: r) = walk .after outer r := by
  have going : b.close ≠ ',' := by cases b <;> decide
  rw [walk]
  split
  · next h => cases (dropWhile_isBlank blank (isBlank_close b)).symm.trans h
  · next h =>
    cases (dropWhile_isBlank blank (isBlank_close b)).symm.trans h
    rw [if_neg going, if_pos rfl]

theorem walk_opened_close (blank : Blank w) :
    walk (.opened b) outer (w ++ b.close :: r) = walk .after outer r := by
  rw [walk]
  split
  · next h => cases (dropWhile_isBlank blank (isBlank_close b)).symm.trans h
  · next h =>
    cases (dropWhile_isBlank blank (isBlank_close b)).symm.trans h
    rw [if_pos rfl]

theorem walk_opened_element (blank : Blank w) (hc : isBlank c = false) (more : c ≠ b.close) :
    walk (.opened b) outer (w ++ c :: r) = walk b.element (b :: outer) (c :: r) := by
  rw [walk]
  split
  · next h => cases (dropWhile_isBlank blank hc).symm.trans h
  · next h =>
    cases (dropWhile_isBlank blank hc).symm.trans h
    rw [if_neg more]

theorem walk_key (blank : Blank w) (h : keyLeftOut.run s = .ok ((), r)) :
    walk .key brackets (w ++ '"' :: s) = walk .value brackets r := by
  rw [walk]
  split
  · next h' => cases (dropWhile_isBlank blank rfl).symm.trans h'
  · next h' =>
    cases (dropWhile_isBlank blank rfl).symm.trans h'
    rw [if_pos rfl]
    split
    · next e => cases h.symm.trans e
    · next e =>
      cases h.symm.trans e
      rfl

theorem walk_value_list (blank : Blank w) :
    walk .value brackets (w ++ '[' :: r) = walk (.opened .list) brackets r := by
  conv => lhs; rw [walk]
  split
  · next h => cases (dropWhile_isBlank blank rfl).symm.trans h
  · next h =>
    cases (dropWhile_isBlank blank rfl).symm.trans h
    rw [if_pos rfl]

theorem walk_value_object (blank : Blank w) :
    walk .value brackets (w ++ '{' :: r) = walk (.opened .object) brackets r := by
  conv => lhs; rw [walk]
  split
  · next h => cases (dropWhile_isBlank blank rfl).symm.trans h
  · next h =>
    cases (dropWhile_isBlank blank rfl).symm.trans h
    rw [if_neg (by decide), if_pos rfl]

theorem walk_value_leaf (blank : Blank w) (hc : isBlank c = false) (list : c ≠ '[')
    (object : c ≠ '{') (h : (leafLeftOut c).run (c :: s) = .ok ((), r)) :
    walk .value brackets (w ++ c :: s) = walk .after brackets r := by
  rw [walk]
  split
  · next h' => cases (dropWhile_isBlank blank hc).symm.trans h'
  · next h' =>
    cases (dropWhile_isBlank blank hc).symm.trans h'
    rw [if_neg list, if_neg object]
    split
    · next e => cases h.symm.trans e
    · next e =>
      cases h.symm.trans e
      rfl

/-! ### The walk over a value -/

theorem walk_number {l : Literal} (blank : Blank w) (h : SpelledNumber l s) (settled : Settled r) :
    walk .value brackets (w ++ (s ++ r)) = walk .after brackets r := by
  have taken := run_literal_spelled h .invalidNumber settled
  obtain ⟨c, cs, rfl, first⟩ := h.opens
  have opens : (Tree.number l).Opens c := first
  refine walk_value_leaf blank opens.not_blank (opens.ne_of_number (by decide) rfl)
    (opens.ne_of_number (by decide) rfl) ?_
  rw [leafLeftOut, if_neg (opens.ne_of_number (by decide) rfl), if_pos first]
  exact Reader.run_bind_ok taken _

theorem walk_text {t : Option String} (blank : Blank w) (h : SpelledText t s) :
    walk .value brackets (w ++ '"' :: (s ++ '"' :: r)) = walk .after brackets r := by
  refine walk_value_leaf blank rfl (by decide) (by decide) ?_
  rw [leafLeftOut, if_pos rfl, Reader.run_bind_ok Reader.run_skip_cons]
  exact run_looseText h

theorem run_keyLeftOut {k : Option String} {before : List Char} (name : SpelledText k s)
    (blank : Blank before) :
    keyLeftOut.run (s ++ '"' :: (before ++ ':' :: r)) = .ok ((), r) := by
  rw [keyLeftOut, Reader.run_bind_ok (run_looseText name)]
  exact run_colon blank

end

mutual

/-- The walk over a value comes out right after it. -/
theorem walk_spelled (t : Tree) (brackets : List Bracket) {w s r : List Char} (blank : Blank w)
    (h : Spelled t s) (settled : Settled r) :
    walk .value brackets (w ++ (s ++ r)) = walk .after brackets r := by
  cases h with
  | null => exact walk_value_leaf blank rfl (by decide) (by decide) (run_word ['n', 'u', 'l', 'l'])
  | yes => exact walk_value_leaf blank rfl (by decide) (by decide) (run_word ['t', 'r', 'u', 'e'])
  | no =>
    exact walk_value_leaf blank rfl (by decide) (by decide) (run_word ['f', 'a', 'l', 's', 'e'])
  | number number => exact walk_number blank number settled
  | text text =>
    simp only [List.cons_append, List.append_assoc]
    exact walk_text blank text
  | @list ts s w' elements blank' =>
    simp only [List.cons_append, List.append_assoc, List.nil_append]
    rw [walk_value_list blank]
    cases elements with
    | nil => exact walk_opened_close (b := .list) blank'
    | @cons _ t ts lead s more leads element others =>
      cases leads with
      | first blank'' =>
        have settled' : Settled (more ++ (w' ++ ']' :: r)) :=
          others.settled (settled_of_blank blank' (Bracket.list.settled r))
        have inside := walk_spelled t (.list :: brackets) .nil element settled'
        obtain ⟨c, s, rfl, opens⟩ := element.opens
        simp only [List.append_assoc, List.cons_append, List.nil_append] at inside ⊢
        rw [walk_opened_element blank'' opens.not_blank (opens.ne_close .list)]
        exact inside.trans (walk_elements ts others blank')
  | @object fs s w' fields blank' =>
    simp only [List.cons_append, List.append_assoc, List.nil_append]
    rw [walk_value_object blank]
    cases fields with
    | nil => exact walk_opened_close (b := .object) blank'
    | @cons _ k t fs lead key before after s more leads name blank₁ blank₂ value others =>
      cases leads with
      | first blank'' =>
        have settled' : Settled (more ++ (w' ++ '}' :: r)) :=
          others.settled (settled_of_blank blank' (Bracket.object.settled r))
        have inside := walk_spelled t (.object :: brackets) blank₂ value settled'
        simp only [List.append_assoc, List.cons_append]
        rw [walk_opened_element blank'' rfl (by decide)]
        refine (walk_key (w := []) .nil (run_keyLeftOut name blank₁)).trans (inside.trans ?_)
        exact walk_fields fs others blank'

/-- The walk over the elements after the first comes out after the closing bracket. -/
theorem walk_elements (ts : List Tree) {outer : List Bracket} {s w r : List Char}
    (h : SpelledElements false ts s) (blank : Blank w) :
    walk .after (.list :: outer) (s ++ (w ++ ']' :: r)) = walk .after outer r := by
  cases h with
  | nil => exact walk_after_close (b := .list) blank
  | @cons _ t ts lead s more leads element others =>
    cases leads with
    | next before after =>
      have settled : Settled (more ++ (w ++ ']' :: r)) :=
        others.settled (settled_of_blank blank (Bracket.list.settled r))
      simp only [List.append_assoc, List.cons_append]
      rw [walk_after_comma before]
      exact (walk_spelled t _ after element settled).trans (walk_elements ts others blank)

/-- The walk over the fields after the first comes out after the closing bracket. -/
theorem walk_fields (fs : List (Option String × Tree)) {outer : List Bracket} {s w r : List Char}
    (h : SpelledFields false fs s) (blank : Blank w) :
    walk .after (.object :: outer) (s ++ (w ++ '}' :: r)) = walk .after outer r := by
  cases h with
  | nil => exact walk_after_close (b := .object) blank
  | @cons _ k t fs lead key before after s more leads name blank₁ blank₂ value others =>
    cases leads with
    | next before' after' =>
      have settled : Settled (more ++ (w ++ '}' :: r)) :=
        others.settled (settled_of_blank blank (Bracket.object.settled r))
      have inside := walk_spelled t (.object :: outer) blank₂ value settled
      simp only [List.append_assoc, List.cons_append]
      rw [walk_after_comma before']
      refine (walk_key after' (run_keyLeftOut name blank₁)).trans (inside.trans ?_)
      exact walk_fields fs others blank

end

/-- Any value can be left out. -/
theorem run_leftOut {t : Tree} {w s r : List Char} (blank : Blank w) (h : Spelled t s)
    (settled : Settled r) : leftOut.run (w ++ (s ++ r)) = .ok ((), r) := by
  have out : walk .value [] (w ++ (s ++ r)) = .ok r :=
    (walk_spelled t [] blank h settled).trans (by rw [walk])
  simp only [leftOut, out]
  rfl

end FleetHealth.Json.Reader

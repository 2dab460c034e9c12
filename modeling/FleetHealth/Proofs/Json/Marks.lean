import FleetHealth.Json.Reader
import FleetHealth.Proofs.Text.Reader

/-!
Marks that are read back, whatever blanks stand before them.
-/

namespace FleetHealth.Json

open FleetHealth.Text

/-- Nothing but blanks. -/
def Blank (w : List Char) : Prop := ∀ c ∈ w, isBlank c = true

instance (w : List Char) : Decidable (Blank w) :=
  decidable_of_iff (w.all isBlank = true) List.all_eq_true

theorem Blank.nil : Blank [] := fun _ h => (List.not_mem_nil h).elim

/-- What stands before an element: blanks, with a comma between them if it is not the first. -/
inductive Lead : Bool → List Char → Prop
  | first {w : List Char} (blank : Blank w) : Lead true w
  | next {w w' : List Char} (before : Blank w) (after : Blank w') : Lead false (w ++ ',' :: w')

namespace Reader

variable {w : List Char} {c : Char} {s : List Char} {b : Bracket}

theorem run_token (blank : Blank w) (hc : isBlank c = false) :
    token.run (w ++ c :: s) = .ok (some c, c :: s) := by
  rw [token, Reader.run_bind_ok (Reader.run_dropWhile blank (.cons hc))]
  rfl

theorem isBlank_close (b : Bracket) : isBlank b.close = false := by
  cases b <;> rfl

theorem run_colon (blank : Blank w) : colon.run (w ++ ':' :: s) = .ok ((), s) := by
  rw [colon, Reader.run_bind_ok (run_token blank rfl)]
  rfl

theorem run_listEnd (blank : Blank w) : listEnd.run (w ++ ']' :: s) = .ok ((), s) := by
  rw [listEnd, Reader.run_bind_ok (run_token blank rfl)]
  rfl

/-- A comma takes the blanks after it as well. -/
theorem run_comma (blank : Blank w) (hc : isBlank c = false) (more : c ≠ b.close) :
    (comma b).run (',' :: (w ++ c :: s)) = .ok ((), c :: s) := by
  rw [comma, Reader.run_bind_ok Reader.run_peek]
  simp only [List.head?_cons, if_true]
  rw [Reader.run_bind_ok Reader.run_skip_cons, Reader.run_bind_ok (run_token blank hc)]
  simp [more]

/-- No element stands before a closing bracket, be it the first or not. -/
theorem run_more?_close (first : Bool) (blank : Blank w) :
    (more? b first).run (w ++ b.close :: s) = .ok (false, b.close :: s) := by
  rw [more?, Reader.run_bind_ok (run_token blank (isBlank_close b))]
  simp

/-- An element stands before the closing bracket if it does not look like one. -/
theorem run_more?_lead {first : Bool} (lead : Lead first w) (hc : isBlank c = false)
    (more : c ≠ b.close) : (more? b first).run (w ++ c :: s) = .ok (true, c :: s) := by
  cases lead with
  | first blank =>
    rw [more?, Reader.run_bind_ok (run_token blank hc)]
    simp [more]
  | next before after =>
    have going : ',' ≠ b.close := by cases b <;> decide
    rw [List.append_assoc, List.cons_append, more?, Reader.run_bind_ok (run_token before rfl)]
    simp only [going, Bool.false_eq_true, if_false]
    rw [Reader.run_bind_ok (run_comma after hc more), Reader.run_pure]

/-- A word is read off its own letters. -/
theorem run_word (chars : List Char) : (word chars).run (chars ++ s) = .ok ((), s) := by
  induction chars with
  | nil => rfl
  | cons c more ih =>
    rw [word, List.cons_append, Reader.run_bind_ok Reader.run_next_cons]
    simpa using ih

end Reader

end FleetHealth.Json

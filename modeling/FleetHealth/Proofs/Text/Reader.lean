import FleetHealth.Text.Reader

/-!
What readers answer.

`run_bind_ok` goes on after a reader whose answer is known; the lemmas tagged for `simp` give the
answers of those that look at a few characters. The two `_append` lemmas cut a text where a class of
characters ends.
-/

namespace FleetHealth.Text

/-- The text does not begin with a character of the class. -/
def Stops (p : Char → Bool) (s : List Char) : Prop := ∀ c ∈ s.head?, p c = false

namespace Stops

variable {p : Char → Bool} {s : List Char}

theorem nil : Stops p [] := fun _ h => (Option.not_mem_none _ h).elim

theorem cons {c : Char} (h : p c = false) : Stops p (c :: s) := by
  intro d hd
  cases hd
  exact h

/-- Only the first character counts. -/
theorem append {w : List Char} (nonempty : w ≠ []) (outside : ∀ c ∈ w, p c = false)
    (s : List Char) : Stops p (w ++ s) := by
  cases w with
  | nil => exact absurd rfl nonempty
  | cons c w => exact cons (outside c List.mem_cons_self)

theorem dropWhile_eq (h : Stops p s) : s.dropWhile p = s := by
  cases s with
  | nil => rfl
  | cons c s => rw [List.dropWhile_cons_of_neg (by simp [h c rfl])]

theorem takeWhile_eq (h : Stops p s) : s.takeWhile p = [] := by
  cases s with
  | nil => rfl
  | cons c s => rw [List.takeWhile_cons_of_neg (by simp [h c rfl])]

/-- A class ends where the next characters are not in it. -/
theorem dropWhile_append {w : List Char} (all : ∀ c ∈ w, p c) (h : Stops p s) :
    (w ++ s).dropWhile p = s := by
  rw [List.dropWhile_append_of_pos all, h.dropWhile_eq]

theorem takeWhile_append {w : List Char} (all : ∀ c ∈ w, p c) (h : Stops p s) :
    (w ++ s).takeWhile p = w := by
  rw [List.takeWhile_append_of_pos all, h.takeWhile_eq, List.append_nil]

end Stops

namespace Reader

variable {ε α β : Type} {x : Reader ε α} {a : α} {c : Char} {s r : List Char}

theorem run_bind_ok (h : x.run s = .ok (a, r)) (f : α → Reader ε β) :
    (x >>= f).run s = (f a).run r := by
  rw [run_bind, h]

theorem run_map (f : α → β) (x : Reader ε α) (s : List Char) :
    (f <$> x).run s = (x >>= fun a => pure (f a)).run s := rfl

@[simp] theorem run_peek : (peek : Reader ε _).run s = .ok (s.head?, s) := rfl

@[simp] theorem run_next_cons : (next : Reader ε _).run (c :: s) = .ok (some c, s) := rfl

@[simp] theorem run_skip_cons : (skip : Reader ε _).run (c :: s) = .ok ((), s) := rfl

@[simp] theorem run_rest : (rest : Reader ε _).run s = .ok (s, s) := rfl

@[simp] theorem run_drop (n : Nat) : (drop n : Reader ε _).run s = .ok ((), s.drop n) := rfl

@[simp] theorem run_ofExcept_ok : (ofExcept (.ok a) : Reader ε α).run s = .ok (a, s) := rfl

theorem run_dropWhile {p : Char → Bool} {w : List Char} (all : ∀ c ∈ w, p c) (h : Stops p s) :
    (dropWhile p : Reader ε _).run (w ++ s) = .ok ((), s) := by
  simp only [dropWhile, h.dropWhile_append all]

theorem run_takeWhile {p : Char → Bool} {w : List Char} (all : ∀ c ∈ w, p c) (h : Stops p s) :
    (takeWhile p : Reader ε _).run (w ++ s) = .ok (w, s) := by
  simp only [takeWhile, h.dropWhile_append all, h.takeWhile_append all]

end Reader

end FleetHealth.Text

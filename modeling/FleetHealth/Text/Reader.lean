/-!
Readers: functions that take a value off the front of a text.

A `Reader ε α` either refuses the text with a fault of type `ε` or answers a value and the rest of
the text. Its field `run_le` says that the rest is never longer than the text, so a loop that also
takes a character of its own ends.
-/

namespace FleetHealth.Text

/-- Takes a value of type `α` off the front of a text, or refuses the text with a fault. -/
structure Reader (ε α : Type) where
  run : List Char → Except ε (α × List Char)
  run_le : ∀ {s a r}, run s = .ok (a, r) → r.length ≤ s.length

namespace Reader

variable {ε α β : Type}

/-- Answers without looking at the text. -/
protected def pure (a : α) : Reader ε α where
  run s := .ok (a, s)
  run_le h := by cases h; exact Nat.le_refl _

/-- Runs one reader, then another on what the first left. -/
protected def bind (x : Reader ε α) (f : α → Reader ε β) : Reader ε β where
  run s :=
    match x.run s with
    | .error e => .error e
    | .ok (a, r) => (f a).run r
  run_le {s b r} h := by
    split at h
    · cases h
    · next a t hx => exact Nat.le_trans ((f a).run_le h) (x.run_le hx)

instance : Monad (Reader ε) where
  pure := Reader.pure
  bind := Reader.bind

@[simp] theorem run_pure (a : α) (s : List Char) : (pure a : Reader ε α).run s = .ok (a, s) := rfl

theorem run_bind (x : Reader ε α) (f : α → Reader ε β) (s : List Char) :
    (x >>= f).run s = match x.run s with
      | .error e => .error e
      | .ok (a, r) => (f a).run r := rfl

/-- Refuses every text. -/
def fail (e : ε) : Reader ε α where
  run _ := .error e
  run_le h := by cases h

@[simp] theorem run_fail (e : ε) (s : List Char) : (fail e : Reader ε α).run s = .error e := rfl

/-- Answers what was found out elsewhere, or refuses with its fault. -/
def ofExcept : Except ε α → Reader ε α
  | .error e => fail e
  | .ok a => pure a

/-- The rest of the text, left where it is. -/
def rest : Reader ε (List Char) where
  run s := .ok (s, s)
  run_le h := by cases h; exact Nat.le_refl _

/-- The next character, left where it is. -/
def peek : Reader ε (Option Char) where
  run s := .ok (s.head?, s)
  run_le h := by cases h; exact Nat.le_refl _

/-- Takes the next character. -/
def next : Reader ε (Option Char) where
  run s := .ok (s.head?, s.tail)
  run_le {s _ _} h := by cases h; simp

/-- Leaves out the next `n` characters. -/
def drop (n : Nat) : Reader ε Unit where
  run s := .ok ((), s.drop n)
  run_le {s _ _} h := by cases h; simp

/-- Leaves out the next character. -/
def skip : Reader ε Unit :=
  drop 1

/-- Leaves out the characters of a class. -/
def dropWhile (p : Char → Bool) : Reader ε Unit where
  run s := .ok ((), s.dropWhile p)
  run_le {s _ _} h := by cases h; exact (List.dropWhile_suffix p).length_le

/-- Takes the characters of a class. -/
def takeWhile (p : Char → Bool) : Reader ε (List Char) where
  run s := .ok (s.takeWhile p, s.dropWhile p)
  run_le {s _ _} h := by cases h; exact (List.dropWhile_suffix p).length_le

end Reader

end FleetHealth.Text

import FleetHealth.Json.Number
import FleetHealth.Json.Text

/-!
Values that are left out of a document.

A field that no record has may hold any value, nested to any depth. `Reader.leftOut` takes such a
value without building it: it walks over the document with the list of the brackets that are still
open, so depth costs no stack.
-/

namespace FleetHealth.Json

open FleetHealth.Text

/-- Where in a document the walk stands: right after an opening bracket, before a value, before a
key, or after a value. -/
inductive Place
  | opened (b : Bracket)
  | value
  | key
  | after

/-- Places that may be passed without taking a character come down in rank. -/
def Place.rank : Place → Nat
  | .opened _ => 2
  | .value => 1
  | .key => 1
  | .after => 0

/-- What stands after a comma, or after an opening bracket that is not closed at once. -/
def Bracket.element : Bracket → Place
  | .list => .value
  | .object => .key

namespace Reader

/-- Takes a value that is no bracket and begins with the given character. -/
def leafLeftOut (c : Char) : Reader Unit :=
  if c = '"' then do
    Reader.skip
    looseText
  else if c = '-' ∨ c.isDigit then do
    let _ ← literal .invalidNumber
  else if c = 'n' then word ['n', 'u', 'l', 'l']
  else if c = 't' then word ['t', 'r', 'u', 'e']
  else if c = 'f' then word ['f', 'a', 'l', 's', 'e']
  else Reader.fail .expectedValue

/-- Takes a key, whose opening quote has been taken, and its colon. -/
def keyLeftOut : Reader Unit := do
  looseText
  colon

/-- Walks on from a place inside the given brackets, the innermost first, to the end of the value
around them all. -/
def walk (place : Place) (brackets : List Bracket) (s : List Char) :
    Except Fault (List Char) :=
  match place, brackets with
  | .after, [] => .ok s
  | .after, b :: outer =>
    match h : s.dropWhile isBlank with
    | [] => .error b.unfinished
    | c :: r =>
      have := length_lt_of_dropWhile_isBlank h
      if c = ',' then walk b.element (b :: outer) r
      else if c = b.close then walk .after outer r
      else .error b.unseparated
  | .opened b, outer =>
    match h : s.dropWhile isBlank with
    | [] => .error b.unfinished
    | c :: r =>
      have := length_lt_of_dropWhile_isBlank h
      if c = b.close then walk .after outer r
      else
        have : b.element.rank = 1 := by cases b <;> rfl
        walk b.element (b :: outer) (c :: r)
  | .key, brackets =>
    match h : s.dropWhile isBlank with
    | [] => .error .endInObject
    | c :: r =>
      have := length_lt_of_dropWhile_isBlank h
      if c = '"' then
        match h' : keyLeftOut.run r with
        | .error e => .error e
        | .ok ((), r') =>
          have := keyLeftOut.run_le h'
          walk .value brackets r'
      else .error .expectedKey
  | .value, brackets =>
    match h : s.dropWhile isBlank with
    | [] => .error .endInValue
    | c :: r =>
      have := length_lt_of_dropWhile_isBlank h
      if c = '[' then walk (.opened .list) brackets r
      else if c = '{' then walk (.opened .object) brackets r
      else
        match h' : (leafLeftOut c).run (c :: r) with
        | .error e => .error e
        | .ok ((), r') =>
          have : r'.length ≤ r.length + 1 := (leafLeftOut c).run_le h'
          walk .after brackets r'
termination_by 3 * s.length + place.rank
decreasing_by
  all_goals simp only [Place.rank] at *
  all_goals grind

theorem walk_length {place : Place} {brackets : List Bracket} {s t : List Char}
    (h : walk place brackets s = .ok t) : t.length ≤ s.length := by
  fun_induction walk place brackets s <;> grind

/-- Takes any value and leaves it out. -/
def leftOut : Reader Unit where
  run s := (walk .value [] s).map fun t => ((), t)
  run_le {s a r} h := by
    cases hw : walk .value [] s with
    | error e => rw [hw] at h; cases h
    | ok t => rw [hw] at h; cases h; exact walk_length hw

end Reader

end FleetHealth.Json

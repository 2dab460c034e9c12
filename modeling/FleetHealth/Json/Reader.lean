import FleetHealth.Json.Fault
import FleetHealth.Text.Reader

/-!
The marks of a JSON document.

A `Reader` takes a value off the front of a document. Here are the parts that every value shares:
blanks, words, colons, brackets, and the commas between the elements of a list or the fields of an
object. `more?` answers whether another of them follows; after the first it always takes a comma
(`more?_length`), which is why the loops over it end.
-/

namespace FleetHealth.Json

open FleetHealth.Text

/-- Takes a value of type `α` off the front of a document. -/
abbrev Reader (α : Type) := Text.Reader Fault α

/-- The blanks that may stand between the marks of a document. -/
def isBlank (c : Char) : Bool :=
  c == ' ' || c == '\n' || c == '\t' || c == '\r'

/-- The two kinds of brackets. -/
inductive Bracket
  | list
  | object
  deriving DecidableEq, Repr

namespace Bracket

/-- The character that closes a bracket. -/
def close : Bracket → Char
  | .list => ']'
  | .object => '}'

/-- The fault of a document that ends inside a bracket. -/
def unfinished : Bracket → Fault
  | .list => .endInList
  | .object => .endInObject

/-- The fault of a bracket in which neither a comma nor the end follows an element. -/
def unseparated : Bracket → Fault
  | .list => .expectedCommaOrListEnd
  | .object => .expectedCommaOrObjectEnd

end Bracket

namespace Reader

variable {α : Type}

/-- The next character that is not blank, left where it is. -/
def token : Reader (Option Char) := do
  Reader.dropWhile isBlank
  Reader.peek

/-- Takes exactly the given characters. -/
def word (chars : List Char) : Reader Unit :=
  match chars with
  | [] => pure ()
  | c :: more => do
    match ← Reader.next with
    | none => Reader.fail .endInValue
    | some d => if d = c then word more else Reader.fail .expectedWord

/-- Takes the colon after a key. -/
def colon : Reader Unit := do
  match ← token with
  | some ':' => Reader.skip
  | some _ => Reader.fail .expectedColon
  | none => Reader.fail .endInObject

/-- Takes the comma before an element that is not the first. -/
def comma (b : Bracket) : Reader Unit := do
  if (← Reader.peek) = some ',' then
    Reader.skip
    match ← token with
    | none => Reader.fail .endInValue
    | some c => if c = b.close then Reader.fail .trailingComma else pure ()
  else Reader.fail b.unseparated

/-- Answers whether another element or field stands before the closing bracket, and takes the comma
before it, which only the first does without. -/
def more? (b : Bracket) (first : Bool) : Reader Bool := do
  match ← token with
  | none => Reader.fail b.unfinished
  | some c =>
    if c = b.close then pure false
    else if first then pure true
    else
      comma b
      pure true

/-- Takes the end of a list that has all its elements. -/
def listEnd : Reader Unit := do
  match ← token with
  | none => Reader.fail .endInList
  | some ']' => Reader.skip
  | some ',' => do
    Reader.skip
    match ← token with
    | some ']' => Reader.fail .trailingComma
    | _ => Reader.fail .trailingCharacters
  | some _ => Reader.fail .trailingCharacters

/-! ### Progress -/

theorem length_dropWhile_isBlank (s : List Char) : (s.dropWhile isBlank).length ≤ s.length :=
  (List.dropWhile_suffix _).length_le

theorem length_lt_of_dropWhile_isBlank {s r : List Char} {c : Char}
    (h : s.dropWhile isBlank = c :: r) : r.length < s.length := by
  have := length_dropWhile_isBlank s
  rw [h] at this
  simp only [List.length_cons] at this
  omega

theorem token_run_some {s t : List Char} {c : Char} (h : token.run s = .ok (some c, t)) :
    ∃ r, t = c :: r ∧ r.length < s.length := by
  simp only [token, Reader.run_bind, Reader.dropWhile, Reader.peek] at h
  cases hs : s.dropWhile isBlank with
  | nil => rw [hs] at h; cases h
  | cons d r => rw [hs] at h; cases h; exact ⟨r, rfl, length_lt_of_dropWhile_isBlank hs⟩

/-- A comma is at least a character. -/
theorem comma_length {b : Bracket} {s r : List Char} (h : (comma b).run s = .ok ((), r)) :
    r.length < s.length := by
  rw [comma, Reader.run_bind] at h
  simp only [Reader.peek] at h
  cases s with
  | nil => simp at h
  | cons c t =>
    split at h
    · rw [Reader.run_bind] at h
      simp only [Reader.skip, Reader.drop, List.drop_succ_cons, List.drop_zero] at h
      exact Nat.lt_succ_of_le (Reader.run_le _ h)
    · cases h

/-- An element that is not the first costs a comma. -/
theorem more?_length {b : Bracket} {s r : List Char} (h : (more? b false).run s = .ok (true, r)) :
    r.length < s.length := by
  rw [more?, Reader.run_bind] at h
  split at h
  · cases h
  · next o t ht =>
    cases o with
    | none => cases h
    | some c =>
      obtain ⟨u, rfl, hu⟩ := token_run_some ht
      dsimp only at h
      split at h
      · cases h
      · simp only [Bool.false_eq_true, if_false, Reader.run_bind] at h
        split at h
        · cases h
        · next v w hw =>
          cases h
          have := comma_length hw
          simp only [List.length_cons] at this
          omega

/-- Reads a document to its end. -/
def document (x : Reader α) (s : List Char) : Except Fault α :=
  match x.run s with
  | .error e => .error e
  | .ok (a, r) => if r.all isBlank then .ok a else .error .trailingCharacters

end Reader

end FleetHealth.Json

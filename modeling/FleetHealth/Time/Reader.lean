import FleetHealth.Decimal.Digits
import FleetHealth.Text.Blank
import FleetHealth.Text.Reader
import FleetHealth.Time.Fault
import FleetHealth.Time.Instant

/-!
Reading a time: a date, a time of day and an offset from universal time.

The format is loose: blanks may stand before every part and mark of the date and of the time of
day, parts may have fewer digits than the canonical text gives them, `t` or a space may divide date
from time, and the offset may be `UTC`, `Z` or hours and minutes with a sign. `readInstant` reports
the first fault, from left to right; whether the parts make a date is judged last.
-/

namespace FleetHealth.Time

open FleetHealth.Text FleetHealth.Decimal

/-- Takes a part of a time off the front of a text. -/
abbrev Reader (α : Type) := Text.Reader Fault α

namespace Reader

/-- Refuses the text, as too short when it has ended and as invalid otherwise. -/
def refuse {α : Type} : Reader α := do
  match ← Reader.peek with
  | none => Reader.fail .tooShort
  | some _ => Reader.fail .invalid

/-- Leaves out blanks. -/
def blanks : Reader Unit :=
  Reader.dropWhile isBlank

/-- Takes digits, at least one and at most `most`. -/
def digits (most : Nat) : Reader (List Char) := do
  let ds := (← Reader.rest).take most |>.takeWhile Char.isDigit
  if ds.isEmpty then refuse
  else
    Reader.drop ds.length
    pure ds

/-- Takes a number with at most `most` digits that fits 63 bits. -/
def number (most : Nat) : Reader Nat := do
  let n := ofDigits (← digits most)
  if n < 0x8000000000000000 then pure n else Reader.fail .outOfRange

/-- Takes the given character after blanks. -/
def mark (c : Char) : Reader Unit := do
  blanks
  if (← Reader.peek) = some c then Reader.skip else refuse

/-- Takes a part of at most two digits after blanks, within bounds. -/
def part (least greatest : Nat) : Reader Nat := do
  blanks
  let n ← number 2
  if least ≤ n ∧ n ≤ greatest then pure n else Reader.fail .outOfRange

/-- Takes a number of at most four digits, or a sign and a number of any length. -/
def signed : Reader Int := do
  let all := (← Reader.rest).length
  match ← Reader.peek with
  | some '-' => do
    Reader.skip
    pure (-(↑(← number all) : Int))
  | some '+' => do
    Reader.skip
    pure (↑(← number all))
  | _ => pure (↑(← number 4))

/-- Takes a year, which has to fit 32 bits. -/
def year : Reader Int := do
  blanks
  let y ← signed
  if -0x80000000 ≤ y ∧ y < 0x80000000 then pure y else Reader.fail .outOfRange

/-- Takes the parts of a date. -/
def date : Reader Date := do
  let y ← year
  mark '-'
  let m ← part 1 12
  mark '-'
  let d ← part 1 31
  pure ⟨y, m, d⟩

/-- Takes what divides a date from a time of day. -/
def divider : Reader Unit := do
  match ← Reader.peek with
  | some 'T' | some 't' | some ' ' => Reader.skip
  | _ => refuse

/-- Takes a fraction of a second, in nanoseconds; digits beyond the ninth are left out. -/
def fraction : Reader Nat := do
  if (← Reader.peek) = some '.' then
    Reader.skip
    let ds ← digits 9
    Reader.dropWhile Char.isDigit
    pure (ofDigits ds * Nat.pow 10 (9 - ds.length))
  else
    pure 0

/-- Takes a time of day, as a second of the day and nanoseconds; second 60 is the leap second. -/
def timeOfDay : Reader (Nat × Nat) := do
  let hour ← part 0 23
  mark ':'
  let minute ← part 0 59
  mark ':'
  let s ← part 0 60
  let nano ← fraction
  blanks
  let start := 3600 * hour + 60 * minute
  pure (if s = 60 then (start + 59, second + nano) else (start + s, nano))

/-- Takes two digits of an offset, the first of them at most `tens`. -/
def offsetPart (tens : Nat) : Reader Nat := do
  let pair := (← Reader.rest).take 2
  match pair with
  | [a, b] =>
    if a.isDigit && b.isDigit then
      if digitValue a ≤ tens then
        Reader.drop 2
        pure (ofDigits pair)
      else Reader.fail .outOfRange
    else Reader.fail .invalid
  -- A character that takes two bytes or more stands in both places.
  | [a] => Reader.fail (if a.utf8Size < 2 then .tooShort else .invalid)
  | _ => Reader.fail .tooShort

/-- Takes hours and minutes, in seconds. Colons and blanks may stand between them. -/
def offsetTime : Reader Nat := do
  let hours ← offsetPart 9
  Reader.dropWhile fun c => c == ':' || isBlank c
  let minutes ← offsetPart 5
  pure (3600 * hours + 60 * minutes)

/-- Takes an offset from universal time, in seconds. -/
def offset : Reader Int := do
  if ((← Reader.rest).take 3).map Char.toUpper = ['U', 'T', 'C'] then
    Reader.drop 3
    pure 0
  else
    match ← Reader.peek with
    | some 'Z' | some 'z' => do
      Reader.skip
      pure 0
    | some '+' => do
      Reader.skip
      pure (↑(← offsetTime))
    | some '-' | some '−' => do
      Reader.skip
      pure (-(↑(← offsetTime) : Int))
    | _ => refuse

end Reader

/-- The instant with the parts read. -/
def Instant.ofParts (d : Date) (time : Nat × Nat) (offset : Int) : Except Fault Instant :=
  if d.Valid ∧ firstDay ≤ d.toDay ∧ d.toDay ≤ lastDay ∧ -86400 < offset ∧ offset < 86400 then
    match ofLocal? d.toDay time.1 time.2 offset with
    | some i => .ok i
    | none => .error .impossible
  else .error .outOfRange

/-- The parts of a time, up to the end of the text. -/
def Reader.parts : Reader (Date × (Nat × Nat) × Int) := do
  let d ← Reader.date
  Reader.divider
  let t ← Reader.timeOfDay
  let o ← Reader.offset
  Reader.blanks
  match ← Reader.peek with
  | none => pure (d, t, o)
  | some _ => Reader.fail .tooLong

/-- Reads the whole text as a time. -/
def readInstant (s : List Char) : Except Fault Instant :=
  match Reader.parts.run s with
  | .error e => .error e
  | .ok ((d, t, o), _) => Instant.ofParts d t o

end FleetHealth.Time

import FleetHealth.Decimal.Digits
import FleetHealth.Json.Reader

/-!
Numbers in a JSON document.

A `Literal` is a number as it is written: sign, digits, places and exponent. `Literal.value` is what
it stands for: an integer where it is written as one and fits 64 bits, and a double otherwise. The
double is computed from the digits that fit 64 bits and a power of ten, rounding at each step.
-/

namespace FleetHealth.Json

open FleetHealth.Text FleetHealth.Decimal

/-- The exponent of a literal: its sign and its digits. -/
structure Exponent where
  negative : Bool
  digits : List Char
  deriving DecidableEq, Repr

/-- A number as it is written. -/
structure Literal where
  negative : Bool
  whole : List Char
  places : List Char
  exponent : Option Exponent
  deriving DecidableEq, Repr

namespace Reader

/-- Takes digits, at least one; `atEnd` is the fault of a document that ends before it. -/
def digits (atEnd : Fault) : Reader (List Char) := do
  let ds ← Reader.takeWhile Char.isDigit
  if ds.isEmpty then
    match ← Reader.peek with
    | none => Reader.fail atEnd
    | some _ => Reader.fail .invalidNumber
  else pure ds

/-- Takes the digits before the point: a zero that stands alone, or digits that begin with none. -/
def wholeDigits (atEnd : Fault) : Reader (List Char) := do
  if (← Reader.peek) = some '0' then
    Reader.skip
    match ← Reader.peek with
    | some c => if c.isDigit then Reader.fail .invalidNumber else pure ['0']
    | none => pure ['0']
  else digits atEnd

/-- Takes the point and the digits after it, if there is one. -/
def placeDigits (atEnd : Fault) : Reader (List Char) := do
  if (← Reader.peek) = some '.' then
    Reader.skip
    digits atEnd
  else pure []

/-- Takes the sign of an exponent; none counts as plus. -/
def exponentSign : Reader Bool := do
  match ← Reader.peek with
  | some '-' => do
    Reader.skip
    pure true
  | some '+' => do
    Reader.skip
    pure false
  | _ => pure false

/-- Takes an exponent, if there is one. -/
def exponent (atEnd : Fault) : Reader (Option Exponent) := do
  match ← Reader.peek with
  | some 'e' | some 'E' => do
    Reader.skip
    let negative ← exponentSign
    pure (some ⟨negative, ← digits atEnd⟩)
  | _ => pure none

/-- Takes a number as it is written. -/
def literal (atEnd : Fault) : Reader Literal := do
  let negative := (← Reader.peek) == some '-'
  if negative then Reader.skip
  let whole ← wholeDigits atEnd
  let places ← placeDigits atEnd
  pure ⟨negative, whole, places, ← exponent atEnd⟩

end Reader

/-! ### The number that a literal stands for -/

/-- Appends digits to a number while it stays below `2 ^ 64`; answers the number and how many digits
were left over. -/
def appendDigits (n : Nat) : List Char → Nat × Nat
  | [] => (n, 0)
  | c :: more =>
    if 10 * n + digitValue c < UInt64.size then appendDigits (10 * n + digitValue c) more
    else (n, more.length + 1)

/-- Divides by a power of ten, by `10 ^ 308` at a time. -/
def divideByPower (x : Float) (power : Nat) : Float :=
  if power ≤ 308 then x / Float.ofScientific 1 false power
  else if x == 0 then x
  else divideByPower (x / Float.ofScientific 1 false 308) (power - 308)
termination_by power

/-- The double next to `n * 10 ^ power`, as far as two roundings tell; there is none above the
greatest double. -/
def scaleByPower? (n : Nat) (power : Int) : Option Float :=
  let x := n.toUInt64.toFloat
  match power with
  | .negSucc k => some (divideByPower x (k + 1))
  | .ofNat k =>
    if k ≤ 308 then
      let y := x * Float.ofScientific 1 false k
      if y.isInf then none else some y
    else if x == 0 then some x
    else none

namespace Literal

/-- Whether the literal is written without places and without an exponent. -/
def isInteger (l : Literal) : Bool :=
  l.places.isEmpty && l.exponent.isNone

/-- The digits of a literal that fit 64 bits, and the power of ten that the others leave. -/
def significand (l : Literal) : Nat × Int :=
  let (n, lost) := appendDigits 0 l.whole
  let (m, left) := appendDigits n l.places
  (m, lost - (l.places.length - left : Nat))

/-- The magnitude of the exponent when it fits 31 bits. -/
def exponentValue? (e : Exponent) : Option Nat :=
  if ofDigits e.digits < 0x80000000 then some (ofDigits e.digits) else none

/-- The magnitude of a literal as a double, if it is in range. -/
def magnitude? (l : Literal) : Option Float :=
  let (n, power) := l.significand
  match l.exponent with
  | none => scaleByPower? n power
  | some e =>
    match exponentValue? e with
    | some k => scaleByPower? n (if e.negative then power - k else power + k)
    | none => if n = 0 ∨ e.negative then some 0 else none

/-- The number that a literal stands for. A negative zero and a negative number beyond 63 bits are
doubles. -/
def value (l : Literal) : Except Fault Numeral :=
  let n := ofDigits l.whole
  if l.isInteger ∧ n < UInt64.size ∧ ¬ l.negative then .ok (.natural n.toUInt64)
  else if l.isInteger ∧ 0 < n ∧ n ≤ 0x8000000000000000 ∧ l.negative then
    .ok (.negative (-n))
  else
    match l.magnitude? with
    | none => .error .numberOutOfRange
    | some x => .ok (.double (if l.negative then -x else x).toBits)

end Literal

namespace Reader

/-- Takes a number. -/
def number : Reader Numeral := do
  Reader.ofExcept (← literal .endInValue).value

end Reader

end FleetHealth.Json

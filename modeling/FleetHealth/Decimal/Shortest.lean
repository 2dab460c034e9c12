import FleetHealth.Decimal.Digits

/-!
The shortest decimal text of a double.

`shortest` picks, among the decimals that round to a given binary number, one with the fewest
digits, and of those the nearest. `Style.write` lays such digits out: positionally where the
decimal exponent lies in the style's range, with an exponent elsewhere.
-/

namespace FleetHealth.Decimal

/-- The number `digits * 10 ^ exponent`. -/
structure Scientific where
  digits : Nat
  exponent : Int
  deriving DecidableEq, Repr

/-- A positive binary number `significand * 2 ^ exponent`. The next number below it is half a step
nearer than the next one above when `narrow` holds, as at a power of two. -/
structure Binary where
  significand : Nat
  exponent : Int
  narrow : Bool
  deriving DecidableEq, Repr

/-- The magnitude of the double with these bits; `none` for zero, infinity and what is no number. -/
def Binary.ofBits? (bits : UInt64) : Option Binary :=
  let fraction : Nat := bits.toNat % 0x10000000000000
  let field : Nat := bits.toNat / 0x10000000000000 % 0x800
  if field = 2047 then none
  else if field = 0 then
    if fraction = 0 then none else some ⟨fraction, -1074, false⟩
  else some ⟨0x10000000000000 + fraction, (field : Int) - 1075, fraction == 0 && field != 1⟩

/-- The quotient `num / den`, not reduced; `den` is positive. -/
structure Quotient where
  num : Nat
  den : Nat

/-- Multiplies a quotient by a power. -/
def Quotient.scale (q : Quotient) (base : Nat) (exponent : Int) : Quotient :=
  match exponent with
  | .ofNat k => ⟨q.num * base.pow k, q.den⟩
  | .negSucc k => ⟨q.num, q.den * base.pow (k + 1)⟩

/-- The greatest `e` with `10 ^ e ≤ q`, for the magnitudes that a double takes. -/
def Quotient.magnitude (q : Quotient) : Int :=
  if q.den ≤ q.num then (digits (q.num / q.den)).length - 1
  else -((List.range 400).find? fun k => q.den ≤ q.num * Nat.pow 10 k).getD 400

/-- The shortest decimal that rounds to the binary number, the nearest of several, and the even one
of two that are equally near. Seventeen digits always suffice. -/
def shortest (b : Binary) : Scientific :=
  let unit : Quotient := Quotient.scale ⟨1, 1⟩ 2 (b.exponent - 2)
  let value := unit.num * (4 * b.significand)
  let above := value + 2 * unit.num
  let below := value - (if b.narrow then 1 else 2) * unit.num
  let top := Quotient.magnitude ⟨value, unit.den⟩
  let attempt (count : Nat) : Option Scientific :=
    let grid := top - (count - 1)
    -- On this grid the value, its bounds and its two neighbours are compared over one denominator.
    let q := Quotient.scale ⟨1, unit.den⟩ 10 (-grid)
    let low := value * q.num / q.den
    let fits (d : Nat) : Bool :=
      let lowest := below * q.num
      let highest := above * q.num
      if b.significand % 2 = 0 then lowest ≤ d * q.den && d * q.den ≤ highest
      else lowest < d * q.den && d * q.den < highest
    let lower := value * q.num - low * q.den
    let upper := (low + 1) * q.den - value * q.num
    match fits low, fits (low + 1) with
    | false, false => none
    | true, false => some ⟨low, grid⟩
    | false, true => some ⟨low + 1, grid⟩
    | true, true =>
      if lower < upper || (lower = upper && low % 2 = 0) then some ⟨low, grid⟩
      else some ⟨low + 1, grid⟩
  ((List.range' 1 17).findSome? attempt).getD ⟨b.significand, b.exponent⟩

/-- Where positional notation begins and ends, as decimal exponents of the first digit. -/
structure Style where
  least : Int
  greatest : Int

/-- Lays digits out, with at least one place after the point in positional notation. -/
def Style.write (style : Style) (s : Scientific) : List Char :=
  let ds := (digits s.digits).reverse.dropWhile (· == '0') |>.reverse
  let first := s.exponent + (digits s.digits).length - 1
  if style.least ≤ first && first ≤ style.greatest then
    match first with
    | .negSucc k => ['0', '.'] ++ List.replicate k '0' ++ ds
    | .ofNat k =>
      let whole := ds.take (k + 1)
      let places := ds.drop (k + 1)
      whole ++ List.replicate (k + 1 - whole.length) '0' ++ ['.'] ++
        (if places.isEmpty then ['0'] else places)
  else
    let power := match first with
      | .negSucc k => '-' :: digits (k + 1)
      | .ofNat k => '+' :: digits k
    match ds with
    | [d] => d :: 'e' :: power
    | d :: more => d :: '.' :: more ++ 'e' :: power
    | [] => 'e' :: power

/-- The text of the double with these bits, which is finite. -/
def Style.writeDouble (style : Style) (bits : UInt64) : List Char :=
  let sign := if 0x8000000000000000 ≤ bits.toNat then ['-'] else []
  match Binary.ofBits? bits with
  | some b => sign ++ style.write (shortest b)
  | none => sign ++ ['0', '.', '0']

end FleetHealth.Decimal

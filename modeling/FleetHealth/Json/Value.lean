import FleetHealth.Decimal.Digits
import FleetHealth.Text.Quoted

/-!
JSON values and their two layouts.

`Value.compact` writes a value without blanks; `Value.pretty` puts each element on a line of its
own, indented by two spaces a level. Fields keep their order.
-/

namespace FleetHealth.Json

/-- A value to be written as JSON. -/
inductive Value
  | null
  | natural (n : Nat)
  | text (s : String)
  | list (elements : List Value)
  | object (fields : List (String × Value))

namespace Value

/-- The escape of a character inside a text: only quotes, backslashes and controls have one. -/
def escape (c : Char) : List Char :=
  if c = '"' then ['\\', '"']
  else if c = '\\' then ['\\', '\\']
  else if c = '\x08' then ['\\', 'b']
  else if c = '\t' then ['\\', 't']
  else if c = '\n' then ['\\', 'n']
  else if c = '\x0c' then ['\\', 'f']
  else if c = '\r' then ['\\', 'r']
  else if c < ' ' then
    ['\\', 'u', '0', '0', Text.hexDigit (c.toNat / 16), Text.hexDigit (c.toNat % 16)]
  else [c]

/-- A text between quotes. -/
def writeText (s : String) : List Char :=
  '"' :: s.toList.flatMap escape ++ ['"']

/-- A new line, indented. -/
def newLine (depth : Nat) : List Char :=
  '\n' :: List.replicate (2 * depth) ' '

mutual

/-- The layout without blanks. -/
def compact : Value → List Char
  | null => ['n', 'u', 'l', 'l']
  | natural n => Decimal.digits n
  | text s => writeText s
  | list [] => ['[', ']']
  | list (v :: vs) => '[' :: compact v ++ compactElements vs ++ [']']
  | object [] => ['{', '}']
  | object ((k, v) :: fs) => '{' :: writeText k ++ ':' :: compact v ++ compactFields fs ++ ['}']

/-- The elements after the first, each after a comma. -/
def compactElements : List Value → List Char
  | [] => []
  | v :: vs => ',' :: compact v ++ compactElements vs

/-- The fields after the first, each after a comma. -/
def compactFields : List (String × Value) → List Char
  | [] => []
  | (k, v) :: fs => ',' :: writeText k ++ ':' :: compact v ++ compactFields fs

end

mutual

/-- The layout over several lines, of a value that begins inside `depth` brackets. -/
def pretty (depth : Nat) : Value → List Char
  | null => ['n', 'u', 'l', 'l']
  | natural n => Decimal.digits n
  | text s => writeText s
  | list [] => ['[', ']']
  | list (v :: vs) =>
    '[' :: newLine (depth + 1) ++ pretty (depth + 1) v ++ prettyElements (depth + 1) vs ++
      newLine depth ++ [']']
  | object [] => ['{', '}']
  | object ((k, v) :: fs) =>
    '{' :: newLine (depth + 1) ++ writeText k ++ ':' :: ' ' :: pretty (depth + 1) v ++
      prettyFields (depth + 1) fs ++ newLine depth ++ ['}']

/-- The elements after the first, each after a comma and on a line of its own. -/
def prettyElements (depth : Nat) : List Value → List Char
  | [] => []
  | v :: vs => ',' :: newLine depth ++ pretty depth v ++ prettyElements depth vs

/-- The fields after the first, each after a comma and on a line of its own. -/
def prettyFields (depth : Nat) : List (String × Value) → List Char
  | [] => []
  | (k, v) :: fs =>
    ',' :: newLine depth ++ writeText k ++ ':' :: ' ' :: pretty depth v ++ prettyFields depth fs

end

end Value

/-- The two layouts. -/
inductive Layout
  | compact
  | pretty
  deriving DecidableEq, Repr

/-- Writes a value in a layout. -/
def Value.write (layout : Layout) (v : Value) : String :=
  match layout with
  | .compact => String.ofList v.compact
  | .pretty => String.ofList (v.pretty 0)

end FleetHealth.Json

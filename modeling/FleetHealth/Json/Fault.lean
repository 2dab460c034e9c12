import FleetHealth.Decimal.Shortest
import FleetHealth.Text.Quoted
import FleetHealth.Time.Fault

/-!
What can be wrong with a JSON document, and how it is said.

Each `Fault` is a cause. `Fault.category` tells a document that ends too early and one that is no
JSON from one whose JSON is not of the form asked for; `Fault.message` is the wording.
-/

namespace FleetHealth.Json

/-- A number as it was read: a natural number of 64 bits, a negative one of 64 bits, or the bits of
a double. -/
inductive Numeral
  | natural (n : UInt64)
  | negative (n : Int)
  | double (bits : UInt64)
  deriving DecidableEq, Repr

/-- What stands in a place that asks for something else. -/
inductive Found
  | null
  | boolean (b : Bool)
  | number (n : Numeral)
  | text (s : String)
  | list
  | object
  deriving DecidableEq, Repr

/-- What a place asks for. -/
inductive Wanted
  | text
  | list
  | natural
  | nothing
  | time
  | record (name : String)
  deriving DecidableEq, Repr

/-- Why a text is not a document of the form asked for. -/
inductive Fault
  | endInValue
  | endInText
  | endInList
  | endInObject
  | expectedColon
  | expectedCommaOrListEnd
  | expectedCommaOrObjectEnd
  | expectedWord
  | expectedValue
  | expectedKey
  | trailingComma
  | trailingCharacters
  | controlCharacter
  | invalidEscape
  | loneSurrogate
  | unpairedSurrogate
  | invalidNumber
  | numberOutOfRange
  /-- A value of the wrong kind. -/
  | wrongKind (found : Found) (wanted : Wanted)
  /-- A number where only a natural one is allowed. -/
  | negative (n : Int)
  /-- A list that ends before a field that must be there. -/
  | tooFew (count : Nat) (record : String) (fields : Nat)
  | unknownChoice (name : String) (choices : List String)
  | duplicateField (key : String)
  | missingField (key : String)
  | time (fault : Time.Fault)
  deriving DecidableEq, Repr

/-- The three kinds of fault. -/
inductive Category
  | syntaxError
  | endOfText
  | data
  deriving DecidableEq, Repr

/-- The name of a category. -/
def Category.name : Category → String
  | .syntaxError => "Syntax"
  | .endOfText => "Eof"
  | .data => "Data"

/-- The kind of a fault. -/
def Fault.category : Fault → Category
  | .endInValue | .endInText | .endInList | .endInObject => .endOfText
  | .wrongKind .. | .negative .. | .tooFew .. | .unknownChoice .. | .duplicateField ..
  | .missingField .. | .time .. => .data
  | _ => .syntaxError

/-- Doubles are shown positionally down to five places after the point and up to sixteen before. -/
def doubleStyle : Decimal.Style := ⟨-5, 15⟩

/-- How a found value is named. -/
def Found.describe : Found → String
  | .null => "null"
  | .boolean b => "boolean `" ++ (if b then "true" else "false") ++ "`"
  | .number (.natural n) => "integer `" ++ toString n.toNat ++ "`"
  | .number (.negative n) => "integer `" ++ toString n ++ "`"
  | .number (.double bits) =>
    "floating point `" ++ String.ofList (doubleStyle.writeDouble bits) ++ "`"
  | .text s => "string " ++ Text.quote s
  | .list => "sequence"
  | .object => "map"

/-- How a wanted value is named. -/
def Wanted.describe : Wanted → String
  | .text => "a string"
  | .list => "a sequence"
  | .natural => "u64"
  | .nothing => "unit"
  | .time => "an RFC 3339 formatted date and time string"
  | .record name => "struct " ++ name

/-- A name between backquotes. -/
def tick (name : String) : String :=
  "`" ++ name ++ "`"

/-- How the allowed names are listed. -/
def describeChoices : List String → String
  | [] => "there are no variants"
  | [a] => "expected " ++ tick a
  | [a, b] => "expected " ++ tick a ++ " or " ++ tick b
  | names => "expected one of " ++ ", ".intercalate (names.map tick)

/-- The wording of a fault. -/
def Fault.message : Fault → String
  | .endInValue => "EOF while parsing a value"
  | .endInText => "EOF while parsing a string"
  | .endInList => "EOF while parsing a list"
  | .endInObject => "EOF while parsing an object"
  | .expectedColon => "expected `:`"
  | .expectedCommaOrListEnd => "expected `,` or `]`"
  | .expectedCommaOrObjectEnd => "expected `,` or `\x7d`"
  | .expectedWord => "expected ident"
  | .expectedValue => "expected value"
  | .expectedKey => "key must be a string"
  | .trailingComma => "trailing comma"
  | .trailingCharacters => "trailing characters"
  | .controlCharacter => "control character (\\u0000-\\u001F) found while parsing a string"
  | .invalidEscape => "invalid escape"
  | .loneSurrogate => "lone leading surrogate in hex escape"
  | .unpairedSurrogate => "unexpected end of hex escape"
  | .invalidNumber => "invalid number"
  | .numberOutOfRange => "number out of range"
  | .wrongKind found wanted =>
    "invalid type: " ++ found.describe ++ ", expected " ++ wanted.describe
  | .negative n =>
    "invalid value: integer `" ++ toString n ++ "`, expected " ++ Wanted.natural.describe
  | .tooFew count record fields =>
    "invalid length " ++ toString count ++ ", expected struct " ++ record ++ " with " ++
      toString fields ++ (if fields = 1 then " element" else " elements")
  | .unknownChoice name choices =>
    "unknown variant " ++ tick name ++ ", " ++ describeChoices choices
  | .duplicateField key => "duplicate field " ++ tick key
  | .missingField key => "missing field " ++ tick key
  | .time fault => fault.message

end FleetHealth.Json

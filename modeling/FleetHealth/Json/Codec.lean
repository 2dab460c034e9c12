import FleetHealth.Json.LeftOut
import FleetHealth.Json.Value
import FleetHealth.Time.Printer
import FleetHealth.Time.Reader

/-!
Codecs: how a type is read from JSON and written as JSON.

A `Codec` pairs a reader with a writer. Here are those of single values, of names chosen from a
list, of optional values and of lists; a reader reports a value of the wrong kind only after it has
read as much of it as shows what it is.
-/

namespace FleetHealth.Json

open FleetHealth.Text

/-- How values of a type are read and written. -/
structure Codec (α : Type) where
  read : Reader α
  write : α → Value

namespace Reader

variable {α : Type}

/-- Refuses the value that stands here, naming it by its kind. -/
def wrongKind (wanted : Wanted) : Reader α := do
  match ← token with
  | none => Reader.fail .endInValue
  | some c =>
    if c = '"' then
      Reader.skip
      Reader.fail (.wrongKind (.text (← text)) wanted)
    else if c = '-' ∨ c.isDigit then
      Reader.fail (.wrongKind (.number (← number)) wanted)
    else if c = 'n' then
      word ['n', 'u', 'l', 'l']
      Reader.fail (.wrongKind .null wanted)
    else if c = 't' then
      word ['t', 'r', 'u', 'e']
      Reader.fail (.wrongKind (.boolean true) wanted)
    else if c = 'f' then
      word ['f', 'a', 'l', 's', 'e']
      Reader.fail (.wrongKind (.boolean false) wanted)
    else if c = '[' then Reader.fail (.wrongKind .list wanted)
    else if c = '{' then Reader.fail (.wrongKind .object wanted)
    else Reader.fail .expectedValue

/-- Takes a text. -/
def textAs (wanted : Wanted) : Reader String := do
  if (← token) = some '"' then
    Reader.skip
    text
  else wrongKind wanted

/-- Takes a natural number of 64 bits. -/
def natural : Reader UInt64 := do
  match ← token with
  | none => Reader.fail .endInValue
  | some c =>
    if c = '-' ∨ c.isDigit then
      match ← number with
      | .natural n => pure n
      | .negative n => Reader.fail (.negative n)
      | n => Reader.fail (.wrongKind (.number n) .natural)
    else wrongKind .natural

/-- Takes a null. -/
def null (wanted : Wanted) : Reader Unit := do
  if (← token) = some 'n' then word ['n', 'u', 'l', 'l'] else wrongKind wanted

/-- Takes a time. -/
def time : Reader Time.Instant := do
  match Time.readInstant (← textAs .time).toList with
  | .ok i => pure i
  | .error e => Reader.fail (.time e)

/-- Takes a name that `choose` knows: as a text, or as the only key of an object that holds a
null. -/
def choice (choose : String → Except Fault α) : Reader α := do
  match ← token with
  | none => Reader.fail .endInValue
  | some '"' => do
    Reader.skip
    Reader.ofExcept (choose (← text))
  | some '{' => do
    Reader.skip
    match ← key? true with
    | none => Reader.fail .expectedValue
    | some name => do
      let a ← Reader.ofExcept (choose name)
      colon
      null .nothing
      match ← token with
      | none => Reader.fail .endInObject
      | some '}' => do
        Reader.skip
        pure a
      | some _ => Reader.fail .expectedValue
  | some _ => Reader.fail .expectedValue

/-- Takes a null as nothing, and otherwise a value. -/
def optional (x : Reader α) : Reader (Option α) := do
  if (← token) = some 'n' then
    word ['n', 'u', 'l', 'l']
    pure none
  else
    pure (some (← x))

/-! ### Lists -/

/-- The elements after those already read, which stand in reverse. -/
def elements (element : Reader α) (done : List α) (s : List Char) :
    Except Fault (List α × List Char) :=
  match h : (more? .list false).run s with
  | .error e => .error e
  | .ok (false, r) => .ok (done.reverse, r)
  | .ok (true, r) =>
    match h' : element.run r with
    | .error e => .error e
    | .ok (a, r') =>
      have := more?_length h
      have := element.run_le h'
      elements element (a :: done) r'
termination_by s.length

theorem elements_length {element : Reader α} {done : List α} {s r : List Char} {as : List α}
    (h : elements element done s = .ok (as, r)) : r.length ≤ s.length := by
  fun_induction elements element done s with
  | case1 => cases h
  | case2 done s r' h' => cases h; exact (more? .list false).run_le h'
  | case3 => cases h
  | case4 done s r' h' a r'' ha hr' hr'' ih =>
    have := ih h
    omega

/-- Takes the elements after the first, but not the closing bracket. -/
def moreElements (element : Reader α) (first : α) : Reader (List α) where
  run := elements element [first]
  run_le := elements_length

/-- Takes a list. -/
def list (element : Reader α) : Reader (List α) := do
  if (← token) = some '[' then
    Reader.skip
    let as ← if ← more? .list true then moreElements element (← element) else pure []
    listEnd
    pure as
  else wrongKind .list

end Reader

namespace Codec

variable {α : Type}

/-- Texts. -/
def text : Codec String where
  read := Reader.textAs .text
  write := .text

/-- Natural numbers of 64 bits. -/
def natural : Codec UInt64 where
  read := Reader.natural
  write n := .natural n.toNat

/-- Times, written in their canonical form. -/
def time : Codec Time.Instant where
  read := Reader.time
  write i := .text (String.ofList i.write)

/-- Names that stand for values. -/
def choice (name : α → String) (choose : String → Except Fault α) : Codec α where
  read := Reader.choice choose
  write a := .text (name a)

/-- A value or null. -/
def optional (c : Codec α) : Codec (Option α) where
  read := Reader.optional c.read
  write
    | none => .null
    | some a => c.write a

/-- Lists. -/
def list (c : Codec α) : Codec (List α) where
  read := Reader.list c.read
  write as := .list (as.map c.write)

/-- Reads a whole document. -/
def decode (c : Codec α) (s : String) : Except Fault α :=
  c.read.document s.toList

/-- Writes a document in a layout. -/
def encode (c : Codec α) (layout : Layout) (a : α) : String :=
  (c.write a).write layout

end Codec

end FleetHealth.Json

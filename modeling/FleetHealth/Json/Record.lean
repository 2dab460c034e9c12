import FleetHealth.Json.Codec

/-!
Records: values with named fields.

`Fields` lists the fields of a record in order, each with its key, its codec and, if it may be left
out, the value that it then has. From such a list come a reader and a writer. A record is read
either from an object, by keys in any order and with unknown keys left out, or from a list, by
position; it is written as an object.
-/

namespace FleetHealth.Json

open FleetHealth.Text

/-- One field of a record; `absent` is its value when it is left out. -/
structure Field (α : Type) where
  key : String
  codec : Codec α
  absent : Option α

/-- A field that must be there. -/
def Field.required {α : Type} (key : String) (codec : Codec α) : Field α :=
  ⟨key, codec, none⟩

/-- A field that may be left out. -/
def Field.optional {α : Type} (key : String) (codec : Codec α) (absent : α) : Field α :=
  ⟨key, codec, some absent⟩

/-- The fields of a record, in order. -/
inductive Fields : List Type → Type 1
  | nil : Fields []
  | cons {α : Type} {αs : List Type} (field : Field α) (more : Fields αs) : Fields (α :: αs)

/-- A value for each field. -/
def Values : List Type → Type
  | [] => Unit
  | α :: αs => α × Values αs

/-- The values found so far, field by field. -/
def Slots : List Type → Type
  | [] => Unit
  | α :: αs => Option α × Slots αs

namespace Fields

/-- The number of fields. -/
def count {αs : List Type} : Fields αs → Nat
  | nil => 0
  | cons _ more => more.count + 1

/-- No value found yet. -/
def noSlots {αs : List Type} : Fields αs → Slots αs
  | nil => ()
  | cons _ more => (none, more.noSlots)

/-- The values of a record whose document has ended: fields that were not found take their value
for that case, and the first that has none is missing. -/
def complete {αs : List Type} : Fields αs → Slots αs → Except Fault (Values αs)
  | nil, () => .ok ()
  | cons f more, (found, slots) =>
    match found.or f.absent with
    | some a => (more.complete slots).map fun vs => (a, vs)
    | none => .error (.missingField f.key)

/-- Takes what follows a key: the value of the field with that key, which must not have one yet, or
any value if no field has it. -/
def assign {αs : List Type} : Fields αs → String → Slots αs → Reader (Slots αs)
  | nil, _, () => do
    Reader.colon
    Reader.leftOut
  | cons f more, key, (found, slots) =>
    if key = f.key then
      match found with
      | some _ => Reader.fail (.duplicateField key)
      | none => do
        Reader.colon
        pure (some (← f.codec.read), slots)
    else do
      pure (found, ← more.assign key slots)

/-- Takes the fields from number `index` on by position. Only at the end may fields be left out. -/
def positional {αs : List Type} (record : String) (total : Nat) :
    Fields αs → Nat → Reader (Values αs)
  | nil, _ => pure ()
  | cons f more, index => do
    if ← Reader.more? .list (index == 0) then
      let a ← f.codec.read
      pure (a, ← more.positional record total (index + 1))
    else
      match f.absent with
      | some a => pure (a, ← more.positional record total (index + 1))
      | none => Reader.fail (.tooFew index record total)

/-- The fields of an object. -/
def write {αs : List Type} : Fields αs → Values αs → List (String × Value)
  | nil, () => []
  | cons f more, (a, vs) => (f.key, f.codec.write a) :: more.write vs

end Fields

namespace Reader

/-- The values of the keys that follow, up to the closing bracket. -/
def keyed {αs : List Type} (fs : Fields αs) (first : Bool) (slots : Slots αs) (s : List Char) :
    Except Fault (Slots αs × List Char) :=
  match h : (key? first).run s with
  | .error e => .error e
  | .ok (none, r) => .ok (slots, r)
  | .ok (some k, r) =>
    match h' : (fs.assign k slots).run r with
    | .error e => .error e
    | .ok (slots', r') =>
      have := key?_length h
      have := (fs.assign k slots).run_le h'
      keyed fs false slots' r'
termination_by s.length

theorem keyed_length {αs : List Type} {fs : Fields αs} {first : Bool} {slots out : Slots αs}
    {s r : List Char} (h : keyed fs first slots s = .ok (out, r)) : r.length ≤ s.length := by
  fun_induction keyed fs first slots s with
  | case1 => cases h
  | case2 first slots s r' h' => cases h; exact (key? first).run_le h'
  | case3 => cases h
  | case4 first slots s k r' hk slots' r'' ha hr' hr'' ih =>
    have := ih h
    omega

/-- Takes the fields of an object, but not its closing bracket. -/
def byKey {αs : List Type} (fs : Fields αs) : Reader (Slots αs) where
  run := keyed fs true fs.noSlots
  run_le := keyed_length

/-- Takes a record, from a list or an object. -/
def record {αs : List Type} (name : String) (fs : Fields αs) : Reader (Values αs) := do
  match ← token with
  | some '[' => do
    Reader.skip
    let vs ← fs.positional name fs.count 0
    listEnd
    pure vs
  | some '{' => do
    Reader.skip
    let vs ← Reader.ofExcept (fs.complete (← byKey fs))
    Reader.skip
    pure vs
  | _ => wrongKind (.record name)

end Reader

/-- Records with the given name and fields; `split` and `build` pass between a value and the values
of its fields. -/
def Codec.record {α : Type} {αs : List Type} (name : String) (fs : Fields αs)
    (split : α → Values αs) (build : Values αs → α) : Codec α where
  read := build <$> Reader.record name fs
  write a := .object (fs.write (split a))

end FleetHealth.Json

import FleetHealth.Composite

/-!
The store of targets.

A write names the version that it was computed from and fails with a conflict when the stored
version is another, so of two writers that start from one version only the first succeeds. Every
successful write raises the version by one.
-/

namespace FleetHealth

/-- Targets by name, the number of successful writes, and whether the store answers at all. -/
structure Store where
  targets : List Target
  patchCount : Nat
  unavailable : Bool
  deriving DecidableEq

namespace Store

/-- Why the store refuses an operation. -/
inductive Error
  | targetNotFound (name : String)
  | conflict (name : String) (expected actual : UInt64)
  | unavailable
  deriving DecidableEq, Repr

/-- The kinds of error that a store can have. -/
inductive ErrorKind
  | notFound
  | conflict
  | unavailable
  | other
  deriving DecidableEq, Repr

/-- All kinds. -/
def ErrorKind.all : List ErrorKind := [notFound, conflict, unavailable, other]

/-- The name of a kind. -/
def ErrorKind.name : ErrorKind → String
  | notFound => "NotFound"
  | conflict => "Conflict"
  | unavailable => "Unavailable"
  | other => "Other"

/-- The kind of an error. -/
def Error.kind : Error → ErrorKind
  | targetNotFound _ => .notFound
  | conflict .. => .conflict
  | unavailable => .unavailable

/-- The wording of an error. -/
def Error.message : Error → String
  | targetNotFound name => "Target not found: " ++ name
  | conflict name expected actual =>
    "Conflict writing " ++ name ++ ": expected version " ++ toString expected.toNat ++ ", found " ++
      toString actual.toNat
  | unavailable => "Store unavailable"

/-- A store without targets. -/
def empty : Store := ⟨[], 0, false⟩

/-- A store with one target, which has no status yet. -/
def single (name : String) : Store := ⟨[.new name], 0, false⟩

/-- The target with a name, whether or not the store is available. -/
def find? (s : Store) (name : String) : Option Target :=
  s.targets.find? (·.name = name)

/-- The targets with one put in the place of the target of its name, or added. -/
def putTarget (t : Target) : List Target → List Target
  | [] => [t]
  | x :: xs => if x.name = t.name then t :: xs else x :: putTarget t xs

/-- Puts a target as it is; this works even when the store is unavailable. -/
def insert (s : Store) (t : Target) : Store :=
  { s with targets := putTarget t s.targets }

/-- Asks for the target with a name. -/
def get (s : Store) (name : String) : Except Error (Option Target) :=
  if s.unavailable then .error .unavailable else .ok (s.find? name)

/-- Writes a status over the version that `base` has; the answer is the new target. -/
def patch (s : Store) (base : Target) (status : Composite) : Except Error (Target × Store) :=
  if s.unavailable then .error .unavailable
  else
    match s.find? base.name with
    | none => .error (.targetNotFound base.name)
    | some stored =>
      if stored.version = base.version then
        let written := { stored with status := some status, version := stored.version + 1 }
        .ok (written, { s.insert written with patchCount := s.patchCount + 1 })
      else .error (.conflict base.name base.version stored.version)

/-- The targets, in the order of their names. -/
def sortedTargets (s : Store) : List Target :=
  s.targets.mergeSort fun a b => a.name ≤ b.name

/-! ### Writing only changes -/

/-- What became of a status that was to be written. -/
inductive Effect
  | unchanged
  | written
  deriving DecidableEq, Repr

/-- Writes a status over a fetched target, unless the target as fetched already carries it. -/
def update (s : Store) (fetched : Target) (desired : Composite) :
    Except Error Effect × Store :=
  if fetched.carries desired then (.ok .unchanged, s)
  else
    match s.patch fetched desired with
    | .error e => (.error e, s)
    | .ok (_, s') => (.ok .written, s')

/-! ### Reading what was put -/

theorem find?_putTarget (t : Target) (ts : List Target) (name : String) :
    (putTarget t ts).find? (·.name = name) =
      if t.name = name then some t else ts.find? (·.name = name) := by
  induction ts with
  | nil => by_cases h : t.name = name <;> simp [putTarget, h]
  | cons x xs ih =>
    by_cases hx : x.name = t.name
    · by_cases h : t.name = name <;> simp [putTarget, hx, h]
    · by_cases h : t.name = name
      · subst h
        simpa [putTarget, hx] using ih
      · simp only [h, if_false] at ih
        simp [putTarget, hx, h, List.find?_cons, ih]

@[simp] theorem find?_insert (s : Store) (t : Target) (name : String) :
    (s.insert t).find? name = if t.name = name then some t else s.find? name :=
  find?_putTarget t s.targets name

end Store

end FleetHealth

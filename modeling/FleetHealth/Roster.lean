import FleetHealth.Member

/-!
The roster: the members of a fleet, in order.

`upsert` and `remove` find a member by name. Both act on the first member with that name, so members
that share a name, which a roster may be built from, are replaced and removed one at a time.
-/

namespace FleetHealth

/-- The members of a fleet, in order. -/
structure Roster where
  members : List Member
  deriving DecidableEq, Repr

namespace Roster

/-- Why a roster refuses an operation. -/
inductive Error
  | memberNotFound (name : String)
  /-- The fleet file could not be used. -/
  | fleetFile (text : String)
  deriving DecidableEq, Repr

/-- The kinds of error that a source of members can have. -/
inductive ErrorKind
  | unavailable
  | decode
  | other
  deriving DecidableEq, Repr

/-- All kinds. -/
def ErrorKind.all : List ErrorKind := [unavailable, decode, other]

/-- The name of a kind. -/
def ErrorKind.name : ErrorKind → String
  | unavailable => "Unavailable"
  | decode => "Decode"
  | other => "Other"

/-- The kind of an error. -/
def Error.kind : Error → ErrorKind
  | memberNotFound _ => .other
  | fleetFile _ => .decode

/-- The wording of an error. -/
def Error.message : Error → String
  | memberNotFound name => "Member not found: " ++ name
  | fleetFile text => "Fleet file error: " ++ text

/-- A roster without members. -/
def empty : Roster := ⟨[]⟩

/-- The list with a member in the place of the first one of its name, or at the end. -/
def insertNamed (m : Member) : List Member → List Member
  | [] => [m]
  | x :: xs => if x.name = m.name then m :: xs else x :: insertNamed m xs

/-- The first member with a name, and the list without it. -/
def eraseNamed? (name : String) : List Member → Option (Member × List Member)
  | [] => none
  | x :: xs =>
    if x.name = name then some (x, xs)
    else (eraseNamed? name xs).map fun (m, rest) => (m, x :: rest)

/-- Replaces the first member of that name, or adds the member at the end. -/
def upsert (r : Roster) (m : Member) : Roster :=
  ⟨insertNamed m r.members⟩

/-- Takes out the first member with a name. -/
def remove (r : Roster) (name : String) : Except Error (Member × Roster) :=
  match eraseNamed? name r.members with
  | some (m, rest) => .ok (m, ⟨rest⟩)
  | none => .error (.memberNotFound name)

end Roster

end FleetHealth

import FleetHealth.FileTree
import FleetHealth.Member.Codec
import FleetHealth.Roster

/-!
Fleet files: JSON documents that list the members of a fleet.

`Roster.ofFile` makes a roster from what was found at the path of a fleet file. Members are taken in
the order of the file, and names that occur twice are kept.
-/

namespace FleetHealth

open FleetHealth.Json

/-- The content of a fleet file. -/
structure FleetFile where
  members : List Member
  deriving DecidableEq, Repr

namespace FleetFile

/-- A fleet file may list nothing. -/
def fields : Fields [List Member] :=
  .cons (.optional "members" (.list Member.codec) []) .nil

def codec : Codec FleetFile :=
  .record "FleetFile" fields
    (fun f => (f.members, ()))
    (fun (members, ()) => ⟨members⟩)

/-- What was found at the path of a fleet file: bytes, or nothing that can be read. -/
abbrev Found := Except ReadError ByteArray

/-- The text of a file, which has to be UTF-8. -/
def text (found : Found) : Except ReadError String :=
  match found with
  | .error e => .error e
  | .ok bytes =>
    match String.fromUTF8? bytes with
    | some s => .ok s
    | none => .error .notText

/-- The content of a file. -/
def read (found : Found) : Except String FleetFile :=
  match text found with
  | .error e => .error ("Failed to read fleet file: " ++ e.message)
  | .ok s =>
    match codec.decode s with
    | .error e => .error ("Failed to parse fleet file: " ++ e.message)
    | .ok f => .ok f

end FleetFile

/-- The roster with the members of a fleet file. -/
def Roster.ofFile (found : FleetFile.Found) : Except Roster.Error Roster :=
  match FleetFile.read found with
  | .error text => .error (.fleetFile text)
  | .ok f => .ok ⟨f.members⟩

end FleetHealth

/-!
Trees of files, and what is read at a path.

A path is a list of names between slashes. `FileTree.Place.read` follows them one after the other,
from the root of the tree if the path begins with a slash and from the place where it stands if not;
the first name that leads nowhere decides why the file cannot be read.
-/

namespace FleetHealth

/-- Why a file cannot be read. -/
inductive ReadError
  | missing
  | notDirectory
  | directory
  | nameTooLong
  | notText
  | other (text : String)
  deriving DecidableEq, Repr

/-- The wording of an error. -/
def ReadError.message : ReadError → String
  | missing => "No such file or directory (os error 2)"
  | notDirectory => "Not a directory (os error 20)"
  | directory => "Is a directory (os error 21)"
  | nameTooLong => "File name too long (os error 36)"
  | notText => "stream did not contain valid UTF-8"
  | other text => text

/-- A file with its bytes, or a directory with its entries by name. -/
inductive FileTree
  | file (bytes : ByteArray)
  | directory (entries : List (String × FileTree))

namespace FileTree

/-- How many bytes a name in a directory may have. -/
def longestName : Nat := 255

/-- How many bytes a path may have. -/
def longestPath : Nat := 4095

/-- The names between the slashes of a path; next to a slash they may be empty. -/
def names : List Char → List (List Char)
  | [] => [[]]
  | c :: path =>
    match names path with
    | [] => [[c]]
    | name :: more => if c = '/' then [] :: name :: more else (c :: name) :: more

/-- A place in a tree: what is there, and the directories above it, the nearest first. -/
structure Place where
  here : FileTree
  above : List FileTree

namespace Place

/-- The root of the tree. -/
def root (p : Place) : Place :=
  ⟨p.above.getLastD p.here, []⟩

/-- The place that a name leads to. Every name asks for a directory, also the empty name and the dot,
which stay in it, and the two dots, which go up but not beyond the root. -/
def enter (p : Place) (name : String) : Except ReadError Place :=
  match p.here with
  | .file _ => .error .notDirectory
  | .directory entries =>
    if name = "" ∨ name = "." then .ok p
    else if name = ".." then
      match p.above with
      | [] => .ok p
      | d :: above => .ok ⟨d, above⟩
    else if longestName < name.utf8ByteSize then .error .nameTooLong
    else
      match entries.lookup name with
      | none => .error .missing
      | some t => .ok ⟨t, p.here :: p.above⟩

/-- The place that names lead to, one after the other. -/
def follow (p : Place) : List String → Except ReadError Place
  | [] => .ok p
  | name :: more =>
    match p.enter name with
    | .error e => .error e
    | .ok p' => p'.follow more

/-- The bytes of the file that a path leads to. An empty path leads nowhere. -/
def read (p : Place) (path : String) : Except ReadError ByteArray :=
  if path = "" then .error .missing
  else if longestPath < path.utf8ByteSize then .error .nameTooLong
  else
    let start := if path.toList.head? = some '/' then p.root else p
    match start.follow ((names path.toList).map String.ofList) with
    | .error e => .error e
    | .ok ⟨.directory _, _⟩ => .error .directory
    | .ok ⟨.file bytes, _⟩ => .ok bytes

end Place

end FileTree

end FleetHealth

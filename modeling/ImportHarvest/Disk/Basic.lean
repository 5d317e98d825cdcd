import ImportHarvest.Text.Pieces
import ImportHarvest.Text.Utf8
/-!
A file system as a value: a tree of directories, files, symbolic links and special files, and the working directory in
it.

A place is the list of names from the top down to a node, with no link on the way. A node has one place, so a file has
one name, and no hard links to it besides; its names are texts, so each of them is UTF-8. Changing what stands at a place
changes nothing at any other place but the directories above it.
-/

namespace ImportHarvest

open Text

/-- what is neither a file nor a directory nor a link -/
inductive Special where
  /-- a socket or a pipe, which cannot be opened -/
  | pipe
  /-- a device that takes what is written to it, and has nothing in it when it is read -/
  | nullDevice
  deriving DecidableEq, Repr

/-- a file, a directory with its children in listing order, a symbolic link, or something that is neither -/
inductive Node where
  | file (content : Octets)
  | directory (children : List (String × Node))
  | link (target : String)
  | special (kind : Special)
  deriving Inhabited, Repr

/-- names from the top down -/
abbrev Place := List String

namespace Node

/-- the child of that name -/
def child? (name : String) : Node → Option Node
  | .directory children => children.lookup name
  | _ => none

/-- the node at a place below this one -/
def at? : Place → Node → Option Node
  | [], n => some n
  | name :: rest, n => (n.child? name).bind (at? rest)

/-- the children with what stands under a name changed; a name that is not there is added at the end -/
def changeChild (name : String) (change : Option Node → Node) : List (String × Node) → List (String × Node)
  | [] => [(name, change none)]
  | (other, n) :: rest =>
    if other = name then (other, change (some n)) :: rest else (other, n) :: changeChild name change rest

/-- the node with another one put at a place below it; directories on the way there are made, and what stands in the
way stays -/
def put (new : Node) : Place → Node → Node
  | [], _ => new
  | name :: rest, .directory children =>
    .directory (changeChild name (fun old => put new rest (old.getD (.directory []))) children)
  | _ :: _, n => n

end Node

/-- a file system, as the children of the directory at its top, and the place of the working directory -/
structure Disk where
  entries : List (String × Node)
  here : Place := []
  deriving Inhabited, Repr

/-- a path with a name added to it -/
def joinPath (path name : String) : String :=
  if path.isEmpty || endsWith "/" path then path ++ name else path ++ "/" ++ name

namespace Disk

/-- nothing but the working directory, which is the top -/
def empty : Disk := { entries := [] }

/-- the directory at the top -/
def top (d : Disk) : Node := .directory d.entries

/-- the node at a place -/
def at? (d : Disk) (place : Place) : Option Node := d.top.at? place

/-- the file system with another node at a place; only a directory can take the place of the top -/
def put (d : Disk) (place : Place) (new : Node) : Disk :=
  match Node.put new place d.top with
  | .directory entries => { d with entries }
  | _ => d

/-- what the file at a place holds -/
def contentAt (d : Disk) (place : Place) : Octets :=
  match d.at? place with
  | some (.file content) => content
  | _ => []

/-- the file system with this in the file at a place, which may be new; the null device keeps nothing of it -/
def store (d : Disk) (place : Place) (content : Octets) : Disk :=
  match d.at? place with
  | some (.special .nullDevice) => d
  | _ => d.put place (.file content)

/-- the file system with octets added at the end of the file at a place -/
def append (d : Disk) (place : Place) (more : Octets) : Disk := d.store place (d.contentAt place ++ more)

/-! ## Paths -/

/-- the names that a path goes through, empty ones for repeated and trailing slashes -/
def steps (path : String) : List String := splitOn '/' path

/-- where the names of a path, or of a link's target that stands in the directory `here`, start -/
def base (here : Place) (path : String) : Place := if startsWith "/" path then [] else here

/-- where the names of a path start -/
def start (d : Disk) (path : String) : Place := base d.here path

/-- adds a node under a path that goes through no link; a directory that is already there stays as it is -/
def add (d : Disk) (path : String) (new : Node) : Disk :=
  let place := d.start path ++ (steps path).filter fun s => s ≠ "" && s ≠ "."
  match new, d.at? place with
  | .directory [], some (.directory _) => d
  | _, _ => d.put place new

end Disk

end ImportHarvest

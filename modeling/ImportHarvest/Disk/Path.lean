import ImportHarvest.Disk.Basic
import ImportHarvest.Failure
/-!
Following paths: which node a path names, whether it names a file or a directory, what a file holds, and where a file
that is to be written lies.

A path is followed name by name, from the top when it starts with a slash and else from the working directory. `.` and
an empty name stay, `..` goes up, a directory is entered, and a symbolic link puts its target in front of the names still
to follow; at most forty links may be followed. A name after which something is still to follow, if only a slash, has to
be a directory.
-/

namespace ImportHarvest.Disk

open Text

/-- how many links may be followed on one path -/
def maxLinks : Nat := 40

/-- how many octets a name may have -/
def maxName : Nat := 255

/-- how many octets a path must stay below -/
def maxPath : Nat := 4096

/-- refuses the paths that no file system takes -/
def checkPath (path : String) : Except Fault Unit :=
  if path.toList.contains '\x00' then .error .nulInPath
  else if path.isEmpty then .error .notFound
  else if maxPath ≤ (utf8Of path).length then .error .nameTooLong
  else .ok ()

/-! ## Following -/

/-- how far a path leads before it ends, fails, or comes to a link -/
inductive Stop where
  | found (place : Place) (node : Node)
  | refused (fault : Fault)
  | link (here : Place) (target : String) (rest : List String)

/-- follows names from a directory up to the next link; `followLast` tells whether a link at the very end counts as
one -/
def advance (d : Disk) (followLast : Bool) (here : Place) : List String → Stop
  | [] => match d.at? here with
    | some n => .found here n
    | none => .refused .notFound
  | name :: rest =>
    if name = "" || name = "." then advance d followLast here rest
    else if name = ".." then advance d followLast here.dropLast rest
    else if maxName < (utf8Of name).length then .refused .nameTooLong
    else match d.at? (here ++ [name]) with
      | none => .refused .notFound
      | some (.directory _) => advance d followLast (here ++ [name]) rest
      | some (.link target) =>
        if rest = [] && !followLast then .found (here ++ [name]) (.link target) else .link here target rest
      | some n => if rest = [] then .found (here ++ [name]) n else .refused .notDirectory

/-- a node with its place, and how many more links could have been followed -/
structure Found where
  place : Place
  node : Node
  budget : Nat

/-- follows names from a directory, with a budget of links -/
def follow (d : Disk) (followLast : Bool) : Nat → Place → List String → Except Fault Found
  | budget, here, names =>
    match d.advance followLast here names with
    | .found place node => .ok ⟨place, node, budget⟩
    | .refused fault => .error fault
    | .link here target rest =>
      match budget with
      | 0 => .error .tooManyLinks
      | budget + 1 => follow d followLast budget (base here target) (steps target ++ rest)

/-- following links uses the budget up -/
theorem follow_budget_le {d : Disk} {followLast : Bool} {budget : Nat} {here : Place} {names : List String}
    {f : Found} (h : d.follow followLast budget here names = .ok f) : f.budget ≤ budget := by
  induction budget generalizing here names with
  | zero =>
    unfold follow at h
    split at h
    · cases h; exact Nat.le_refl _
    · cases h
    · cases h
  | succ n ih =>
    unfold follow at h
    split at h
    · cases h; exact Nat.le_refl _
    · cases h
    · exact Nat.le_succ_of_le (ih h)

/-- the node that a path names -/
def resolve (d : Disk) (followLast : Bool) (path : String) : Except Fault Found := do
  checkPath path
  d.follow followLast maxLinks (d.start path) (steps path)

/-! ## Files and directories -/

/-- whether a path names a regular file, links followed -/
def isFile (d : Disk) (path : String) : Bool :=
  match d.resolve true path with
  | .ok ⟨_, .file _, _⟩ => true
  | _ => false

/-- whether a path names a directory, links followed -/
def isDirectory (d : Disk) (path : String) : Bool :=
  match d.resolve true path with
  | .ok ⟨_, .directory _, _⟩ => true
  | _ => false

/-- what a read of a node gives -/
def contentOf : Node → Except Fault Octets
  | .file content => .ok content
  | .directory _ => .error .isDirectory
  | .special .nullDevice => .ok []
  | _ => .error .noDevice

/-- what the file that a path names holds -/
def read (d : Disk) (path : String) : Except Fault Octets := do
  contentOf (← d.resolve true path).node

/-! ## Creating -/

/-- whether a directory stands at a place -/
def hasDirectory (d : Disk) (place : Place) : Bool :=
  match d.at? place with
  | some (.directory _) => true
  | _ => false

/-- how far the path of a file to create leads before it is settled or comes to a link -/
inductive CreateStop where
  | place (place : Place)
  | refused (fault : Fault)
  | link (here : Place) (target : String) (rest : List String)

/-- follows names up to the file to create or the next link; it is made in a directory that is there, and a file or the
null device may be there already -/
def advanceNew (d : Disk) (here : Place) : List String → CreateStop
  | [] => .refused .isDirectory
  | name :: rest =>
    if name = "" || name = "." then advanceNew d here rest
    else if name = ".." then advanceNew d here.dropLast rest
    else if rest ≠ [] && rest.all (· = "") then .refused .isDirectory
    else if maxName < (utf8Of name).length then .refused .nameTooLong
    else match d.at? (here ++ [name]) with
      | none => if rest = [] && d.hasDirectory here then .place (here ++ [name]) else .refused .notFound
      | some (.directory _) => if rest = [] then .refused .isDirectory else advanceNew d (here ++ [name]) rest
      | some (.link target) => .link here target rest
      | some (.file _) => if rest = [] then .place (here ++ [name]) else .refused .notDirectory
      | some (.special .nullDevice) => if rest = [] then .place (here ++ [name]) else .refused .notDirectory
      | some (.special .pipe) => .refused (if rest = [] then .noDevice else .notDirectory)

/-- the place of the file to create, with a budget of links -/
def followNew (d : Disk) : Nat → Place → List String → Except Fault Place
  | budget, here, names =>
    match d.advanceNew here names with
    | .place place => .ok place
    | .refused fault => .error fault
    | .link here target rest =>
      match budget with
      | 0 => .error .tooManyLinks
      | budget + 1 => followNew d budget (base here target) (steps target ++ rest)

/-- creates the file that a path names, or empties it, and gives its place -/
def create (d : Disk) (path : String) : Except Fault (Place × Disk) := do
  checkPath path
  let place ← d.followNew maxLinks (d.start path) (steps path)
  return (place, d.store place [])

end ImportHarvest.Disk

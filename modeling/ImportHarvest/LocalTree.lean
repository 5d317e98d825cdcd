import ImportHarvest.Disk.Path
import ImportHarvest.Source
/-!
Walking a directory on disk.

The walk takes the children of a directory in listing order, and what is below a directory right after the directory
itself. A symbolic link to a regular file is a file whether links are followed or not. Where they are followed, a link
to a directory is a directory, one that leads nowhere fails, and so does one to a directory that the walk stands in.
Special files are passed over. A directory whose path is too long fails when it is to be listed, after its record. A root
that is a link to a directory is always followed; one that is no directory has nothing below it.
-/

namespace ImportHarvest

open Text

/-- a directory to walk -/
structure LocalTree where
  root : String
  followLinks : Bool
  deriving DecidableEq, Repr

namespace LocalTree

/-- where a walk stands: the directory as it is shown, the names from the root down to it, its place, and the places of
the directories it is in, itself included -/
structure Position where
  shown : String
  names : List String
  place : Place
  within : List Place

namespace Position

/-- the child of that name, which lies at `place` -/
def enter (p : Position) (name : String) (place : Place) : Position :=
  ⟨joinPath p.shown name, p.names ++ [name], place, place :: p.within⟩

/-- the record of the child of that name -/
def record (p : Position) (name : String) (isDir : Bool) : Record where
  path := joinPath p.shown name
  relativePath := join "/" (p.names ++ [name])
  name := name
  isDir := isDir
  content := .path (joinPath p.shown name)

def failure (p : Position) (name : String) (fault : Fault) : Listing := .fail (.io (joinPath p.shown name) fault)

/-- whether the path of the child of that name is too long to be followed -/
def tooLong (p : Position) (name : String) : Bool := Disk.maxPath ≤ (utf8Of (joinPath p.shown name)).length

/-- what the child of that name leads to, which is a link to `target`; `budget` links may still be followed -/
def linked (d : Disk) (budget : Nat) (p : Position) (name target : String) : Except Fault Disk.Found :=
  if p.tooLong name then .error .nameTooLong
  else match budget with
    | 0 => .error .tooManyLinks
    | budget + 1 => d.follow true budget (Disk.base p.place target) (Disk.steps target)

theorem linked_budget_lt {d : Disk} {budget : Nat} {p : Position} {name target : String} {f : Disk.Found}
    (h : linked d budget p name target = .ok f) : f.budget < budget := by
  unfold linked at h
  split at h
  · cases h
  · cases budget with
    | zero => cases h
    | succ n => exact Nat.lt_succ_of_le (Disk.follow_budget_le h)

end Position

/-- the walk below a directory with these children; `budget` links may still be followed on a path from here -/
def walkChildren (d : Disk) (followLinks : Bool) (budget : Nat) (p : Position) : List (String × Node) → Listing
  | [] => .nil
  | (name, .file _) :: rest => .single (p.record name false) ++ walkChildren d followLinks budget p rest
  | (_, .special _) :: rest => walkChildren d followLinks budget p rest
  | (name, .directory children) :: rest =>
    .single (p.record name true)
      ++ (if p.tooLong name then p.failure name .nameTooLong
        else walkChildren d followLinks budget (p.enter name (p.place ++ [name])) children)
      ++ walkChildren d followLinks budget p rest
  | (name, .link target) :: rest =>
    match h : p.linked d budget name target with
    | .ok ⟨_, .file _, _⟩ => .single (p.record name false) ++ walkChildren d followLinks budget p rest
    | .ok ⟨place, .directory children, left⟩ =>
      if !followLinks then walkChildren d followLinks budget p rest
      else if p.within.contains place then p.failure name .loopDetected
      else
        have : left < budget := Position.linked_budget_lt h
        .single (p.record name true)
          ++ walkChildren d followLinks left (p.enter name place) children
          ++ walkChildren d followLinks budget p rest
    | .ok _ => walkChildren d followLinks budget p rest
    | .error fault =>
      if followLinks then p.failure name fault else walkChildren d followLinks budget p rest
termination_by children => (budget, sizeOf children)

/-- the records below the root, and the failure that ends them -/
def walk (t : LocalTree) (d : Disk) : Listing :=
  match d.resolve true t.root with
  | .error fault => .fail (.io t.root fault)
  | .ok ⟨place, .directory children, budget⟩ =>
    walkChildren d t.followLinks budget ⟨t.root, [], place, [place]⟩ children
  | .ok _ => .nil

/-- the content of a record that lies on disk; names on disk are texts, so a path that is none leads nowhere -/
def read (d : Disk) (r : Record) : Except Failure Octets :=
  match r.content with
  | .path path => (d.read path).mapError (.io path)
  | .rawPath path => .error (.io (shownOf path) .notFound)
  | .url url => .error (.invalidInput ("local walker cannot read remote content " ++ url))

end LocalTree

end ImportHarvest

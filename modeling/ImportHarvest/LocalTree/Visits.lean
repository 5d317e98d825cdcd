import ImportHarvest.LocalTree
/-!
A walk on disk, visit by visit.

A traversal shows an entry for everything that it comes to below the root, and says so where it cannot go on; then it goes
on elsewhere. Here the walk takes its records from such visits, one call after the other: an entry has a record because of
what it is itself, or because its path leads to a file. The first visit that fails ends the walk, whatever visits are
still to come.

The path of an entry is octets, and so is that of the root: they are taken apart as such, and shown in a record with
U+FFFD in place of what is ill-formed. A traversal of a disk whose names are texts shows the octets of texts.
-/

namespace ImportHarvest

open Text

namespace LocalTree

/-! ## Visits -/

/-- what an entry is, or, where links are followed, what it leads to -/
inductive EntryType where
  | file
  | directory
  | link
  | special
  deriving DecidableEq, Repr

/-- an entry that a traversal shows -/
structure DirEntry where
  path : Octets
  type : EntryType
  deriving DecidableEq, Repr

/-- why a traversal cannot go on somewhere: at which path, if it is known, and what the file system says; that says nothing
when a link leads back to a directory that the traversal is in -/
structure VisitError where
  path : Option Octets
  fault : Option Fault
  deriving DecidableEq, Repr

/-- one step of a traversal -/
abbrev Visit := Except VisitError DirEntry

def VisitError.failure (e : VisitError) : Failure := .io (shownOf (e.path.getD [])) (e.fault.getD .loopDetected)

/-- the child of that name, shown as something of that type -/
def Position.entry (p : Position) (name : String) (type : EntryType) : DirEntry := ⟨utf8Of (joinPath p.shown name), type⟩

/-- the child of that name, at which the traversal cannot go on -/
def Position.error (p : Position) (name : String) (fault : Option Fault) : VisitError :=
  ⟨some (utf8Of (joinPath p.shown name)), fault⟩

/-- the visits below a directory with these children; `budget` links may still be followed on a path from here -/
def visitChildren (d : Disk) (followLinks : Bool) (budget : Nat) (p : Position) : List (String × Node) → List Visit
  | [] => []
  | (name, .file _) :: rest =>
    .ok (p.entry name .file) :: visitChildren d followLinks budget p rest
  | (name, .special _) :: rest =>
    .ok (p.entry name .special) :: visitChildren d followLinks budget p rest
  | (name, .directory children) :: rest =>
    .ok (p.entry name .directory) ::
      (if p.tooLong name then [.error (p.error name (some .nameTooLong))]
        else visitChildren d followLinks budget (p.enter name (p.place ++ [name])) children)
      ++ visitChildren d followLinks budget p rest
  | (name, .link target) :: rest =>
    (if !followLinks then [.ok (p.entry name .link)]
      else match h : p.linked d budget name target with
        | .ok ⟨_, .file _, _⟩ => [.ok (p.entry name .file)]
        | .ok ⟨place, .directory children, left⟩ =>
          if p.within.contains place then [.error (p.error name none)]
          else
            have : left < budget := Position.linked_budget_lt h
            .ok (p.entry name .directory) ::
              visitChildren d followLinks left (p.enter name place) children
        | .ok _ => [.ok (p.entry name .special)]
        | .error fault => [.error (p.error name (some fault))])
      ++ visitChildren d followLinks budget p rest
termination_by children => (budget, sizeOf children)

/-- the visits below the root -/
def visits (t : LocalTree) (d : Disk) : List Visit :=
  match d.resolve true t.root with
  | .error fault => [.error ⟨some (utf8Of t.root), some fault⟩]
  | .ok ⟨place, .directory children, budget⟩ =>
    visitChildren d t.followLinks budget ⟨t.root, [], place, [place]⟩ children
  | .ok _ => []

/-! ## Records -/

/-- the octets of a slash and of a dot -/
def slash : UInt8 := 0x2F
def dot : UInt8 := 0x2E

/-- the names of a path; a slash in front of them, or a dot, counts as one -/
def components (path : Octets) : List Octets :=
  let names := (pieces slash path).filter fun s => s ≠ [] && s ≠ [dot]
  if path.head? = some slash then [slash] :: names
  else if (pieces slash path).head? = some [dot] then [dot] :: names
  else names

/-- the last name of a path, or the path when that is none of an entry -/
def fileName (path : Octets) : Octets :=
  match (components path).getLast? with
  | none => path
  | some name => if [[slash], [dot], [dot, dot]].contains name then path else name

/-- a path seen from the root, as it is shown -/
def relativePath (root path : Octets) : String :=
  join "/" (((dropStart? (components root) (components path)).getD (components path)).map shownOf)

/-- the record of an entry: that of a directory, or that of a file when it is one or its path leads to one -/
def toRecord (isFile : Octets → Bool) (root : Octets) (e : DirEntry) : Option Record :=
  let record (isDir : Bool) : Record :=
    ⟨shownOf e.path, relativePath root e.path, shownOf (fileName e.path), isDir, .ofOctets e.path⟩
  if e.type = .directory then some (record true)
  else if e.type = .file || isFile e.path then some (record false)
  else none

/-! ## Calls -/

/-- what a call gives, whether a visit has failed by then, and what is left of the visits; a call takes visits until it has
something to give, and one without effect after a failure -/
def next (isFile : Octets → Bool) (root : Octets) : Bool → List Visit → WalkItem × Bool × List Visit
  | failed, [] => (none, failed, [])
  | true, _ :: rest => (none, true, rest)
  | false, .error e :: rest => (some (.error e.failure), true, rest)
  | false, .ok e :: rest =>
    match toRecord isFile root e with
    | some r => (some (.ok r), false, rest)
    | none => next isFile root false rest

/-- what the call after `n` others gives -/
def nth (isFile : Octets → Bool) (root : Octets) : Nat → Bool → List Visit → WalkItem
  | 0, failed, visits => (next isFile root failed visits).1
  | n + 1, failed, visits =>
    let (_, failed, rest) := next isFile root failed visits
    nth isFile root n failed rest

end LocalTree

/-- whether the path of these octets names a regular file, links followed; names on disk are texts, so octets that are
none name nothing -/
def Disk.isFileAt (d : Disk) (path : Octets) : Bool := (utf8Exact? path).any fun cs => d.isFile (String.ofList cs)

end ImportHarvest

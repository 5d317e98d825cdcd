import ImportHarvest.RemoteTree
/-!
A repository's tree of listings as a whole: the records that a walk gives, by recursion on the tree instead of step by
step.

A directory's record comes right before what its listing expands to, and entries follow each other in listing order. A
listing that fails ends the expansion, and its directory has no record. The tree may be endless, so the expansion is
told how deep it may go, and gives nothing when there is more below.
-/

namespace ImportHarvest.RemoteTree

/-- what entries expand to, to a depth of so many listings below them -/
def expandEntries (api : ContentsApi) (rootPath : Option String) (depth : Nat) : List Entry → Option Listing
  | [] => some .nil
  | e :: rest =>
    if e.kind = "dir" then
      match depth with
      | 0 => none
      | depth + 1 =>
        match api.list e.url with
        | .error f => some (.fail f)
        | .ok children =>
          match expandEntries api rootPath depth children with
          | none => none
          | some below =>
            let here := Listing.single (record rootPath e) ++ below
            if here.failure.isSome then some here
            else (expandEntries api rootPath (depth + 1) rest).map fun after => here ++ after
    else if e.kind = "file" && e.downloadUrl.isSome then
      (expandEntries api rootPath depth rest).map fun after => Listing.single (record rootPath e) ++ after
    else expandEntries api rootPath depth rest
termination_by es => (depth, es.length)

/-- what the whole tree expands to, to a depth of so many listings below the root's -/
def expand (t : RemoteTree) (depth : Nat) : Option Listing :=
  match t.api.list t.rootUrl with
  | .error f => some (.fail f)
  | .ok entries => expandEntries t.api (entries.head?.map fun e => parentPath e.path) depth entries

end ImportHarvest.RemoteTree

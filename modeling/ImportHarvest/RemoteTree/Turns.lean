import ImportHarvest.RemoteTree
/-!
A step of a repository's walk, turn by turn.

The search for the next entry with a record takes a turn for each entry that it passes over and for each listing that is
used up, and a last one for what it finds. Here it may take only so many, and a step is not over when they are used up.
-/

namespace ImportHarvest.RemoteTree

/-- where a turn of the search leads: on, with what is left of the listings, or to its end -/
inductive Turn where
  | goOn (stack : List (List Entry))
  | finished (found : Option (Entry × List (List Entry)))

/-- a turn of the search: a listing that is used up is left, an entry without a record is passed over -/
def turn : List (List Entry) → Turn
  | [] => .finished none
  | [] :: outer => .goOn outer
  | (e :: rest) :: outer =>
    if e.kind = "dir" || (e.kind = "file" && e.downloadUrl.isSome) then .finished (some (e, rest :: outer))
    else .goOn (rest :: outer)

/-- what the search finds in so many turns, if it is over by then -/
def search : Nat → List (List Entry) → Option (Option (Entry × List (List Entry)))
  | 0, _ => none
  | turns + 1, stack =>
    match turn stack with
    | .finished found => some found
    | .goOn stack => search turns stack

/-- what a step does with what the search found -/
def afterSearch (api : ContentsApi) (c : Cursor) : Option (Entry × List (List Entry)) → WalkItem × Cursor × List Request
  | none => (none, { c with stack := [] }, [])
  | some (e, stack) =>
    if e.kind = "dir" then
      match api.list e.url with
      | .error f => (some (.error f), .done, [.list e.url])
      | .ok children =>
        (some (.ok (record c.rootPath e)), { c with stack := children :: stack }, [.list e.url])
    else (some (.ok (record c.rootPath e)), { c with stack := stack }, [])

/-- the next step of a walk, if it is over after so many turns -/
def nextWithin (turns : Nat) (api : ContentsApi) (c : Cursor) : Option (WalkItem × Cursor × List Request) :=
  match c.unlisted with
  | none => (search turns c.stack).map (afterSearch api c)
  | some root =>
    match api.list root with
    | .error f => some (some (.error f), .done, [.list root])
    | .ok entries =>
      (search turns [entries]).map fun found =>
        let (item, c, asked) := afterSearch api ⟨none, entries.head?.map fun e => parentPath e.path, [entries]⟩ found
        (item, c, .list root :: asked)

end ImportHarvest.RemoteTree

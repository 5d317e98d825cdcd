import ImportHarvest.Entry
import ImportHarvest.Source
/-!
Walking a repository through a listing service.

Each directory is listed when the walk comes to it, before its own record is given, and nothing is listed earlier. An
entry of another kind than file or directory, or a file without a download address, is passed over. A listing that
fails ends the walk.
-/

namespace ImportHarvest

open Text

/-- what a listing service answers; an answer depends on nothing but the address -/
structure ContentsApi where
  list : String → Except Failure (List Entry)
  download : String → Except Failure Octets

/-- a repository directory to walk -/
structure RemoteTree where
  api : ContentsApi
  rootUrl : String

namespace RemoteTree

/-- how far a walk has come: the root as long as it was not listed, the repository path of the root once that is known,
and what is left of each listing, the deepest in front -/
structure Cursor where
  unlisted : Option String
  rootPath : Option String
  stack : List (List Entry)
  deriving Repr, DecidableEq

/-- a walk that is over -/
def Cursor.done : Cursor := ⟨none, none, []⟩

/-- what stands before the last slash of a path, or nothing when it has none -/
def parentPath (path : String) : String :=
  match (pieces '/' path.toList).dropLast with
  | [] => ""
  | parents => String.ofList (glue ['/'] parents)

/-- a repository path seen from the root -/
def relativePath (rootPath : Option String) (path : String) : String :=
  match rootPath with
  | none => path
  | some start =>
    if start.isEmpty then path
    else match dropStart? start.toList path.toList with
      | none => path
      | some rest => String.ofList (rest.dropWhile (· = '/'))

/-- the first entry of a listing that has a record, and what follows it -/
def nextInListing : List Entry → Option (Entry × List Entry)
  | [] => none
  | e :: rest =>
    if e.kind = "dir" || (e.kind = "file" && e.downloadUrl.isSome) then some (e, rest) else nextInListing rest

/-- the next entry that has a record, and what is left of the listings -/
def nextEntry : List (List Entry) → Option (Entry × List (List Entry))
  | [] => none
  | entries :: outer =>
    match nextInListing entries with
    | some (e, rest) => some (e, rest :: outer)
    | none => nextEntry outer

/-- the record of an entry -/
def record (rootPath : Option String) (e : Entry) : Record where
  path := e.path
  relativePath := relativePath rootPath e.path
  name := e.name
  isDir := e.kind = "dir"
  content := .url (if e.kind = "dir" then e.url else e.downloadUrl.getD "")

/-- the next step of a walk whose root is listed, with the listings it asked for -/
def nextListed (api : ContentsApi) (c : Cursor) : WalkItem × Cursor × List Request :=
  match nextEntry c.stack with
  | none => (none, { c with stack := [] }, [])
  | some (e, stack) =>
    if e.kind = "dir" then
      match api.list e.url with
      | .error f => (some (.error f), .done, [.list e.url])
      | .ok children =>
        (some (.ok (record c.rootPath e)), { c with stack := children :: stack }, [.list e.url])
    else (some (.ok (record c.rootPath e)), { c with stack := stack }, [])

/-- the next step of a walk, with the listings it asked for -/
def next (api : ContentsApi) (c : Cursor) : WalkItem × Cursor × List Request :=
  match c.unlisted with
  | none => nextListed api c
  | some root =>
    match api.list root with
    | .error f => (some (.error f), .done, [.list root])
    | .ok entries =>
      let (item, c, asked) := nextListed api ⟨none, entries.head?.map fun e => parentPath e.path, [entries]⟩
      (item, c, .list root :: asked)

/-- a walk that has not begun -/
def start (t : RemoteTree) : Cursor := ⟨some t.rootUrl, none, []⟩

/-- the content of a record, with the request for it -/
def read (api : ContentsApi) (r : Record) : Except Failure Octets × List Request :=
  match r.content with
  | .url url => (api.download url, [.download url])
  | .path path => (.error (.invalidInput ("remote walker cannot read local path " ++ path)), [])
  | .rawPath path => (.error (.invalidInput ("remote walker cannot read local path " ++ shownOf path)), [])

/-- the repository as a source -/
def source (t : RemoteTree) {τ : Type} : TreeSource τ where
  describe := t.rootUrl
  Cursor := Cursor
  start := fun _ => t.start
  next := fun c _ => next t.api c
  read := fun r c _ =>
    let (content, asked) := read t.api r
    (content, c, asked)

end RemoteTree

end ImportHarvest

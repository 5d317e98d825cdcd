import ImportHarvest.Failure
import ImportHarvest.Text.Blank
import ImportHarvest.Text.Pieces
/-!
Where a repository is: the owner and the name that its web address gives, with a ref and a directory below its root
when the address goes on with `tree`, and the address of the listing that a walk starts from.

Only the first `github.com/` in an address is the host; whatever follows a question mark or a hash is left out, and
slashes may repeat.
-/

namespace ImportHarvest

open Text

/-- a place in a repository -/
structure RepoLocation where
  owner : String
  repo : String
  ref : Option String
  subdirectory : Option String
  deriving DecidableEq, Repr

namespace RepoLocation

def host : List Char := "github.com/".toList

/-- the default root of the listing service -/
def defaultApiBase : String := "https://api.github.com"

/-- the reversed text without `.git`, which stands reversed at its start, however often it stands there -/
def dropTigDot : List Char → List Char
  | 't' :: 'i' :: 'g' :: '.' :: cs => dropTigDot cs
  | cs => cs

/-- the text without `.git` at its end, however often it stands there -/
def dropDotGit (cs : List Char) : List Char := (dropTigDot cs.reverse).reverse

/-- the parts of an address after the host that hold something -/
def parts (afterHost : List Char) : List (List Char) :=
  (pieces '/' (afterHost.takeWhile fun c => c ≠ '?' && c ≠ '#')).filter (· ≠ [])

/-- the place that the parts name -/
def ofParts? : List (List Char) → Option RepoLocation
  | owner :: repo :: rest =>
    let (ref, sub) : Option (List Char) × List (List Char) := match rest with
      | mark :: ref :: sub => if mark = "tree".toList then (some ref, sub) else (none, [])
      | _ => (none, [])
    some {
      owner := String.ofList owner
      repo := String.ofList (dropDotGit repo)
      ref := ref.map String.ofList
      subdirectory := if sub = [] then none else some (String.ofList (glue ['/'] sub)) }
  | _ => none

def parse? (url : String) : Option RepoLocation := do
  let (_, rest) ← splitAtFirst? host (trim url.toList)
  ofParts? (parts rest)

/-- the place that a web address names -/
def parse (url : String) : Except Failure RepoLocation :=
  match parse? url with
  | some location => .ok location
  | none => .error (.invalidInput ("Expected https://github.com/<owner>/<repo>, got " ++ url))

/-- owner and name, with a slash between -/
def fullName (l : RepoLocation) : String := l.owner ++ "/" ++ l.repo

/-- the text without slashes at its end -/
def dropSlashes (s : String) : String := String.ofList (s.toList.reverse.dropWhile (· = '/')).reverse

/-- the address of the listing that a walk starts from -/
def contentsUrl (l : RepoLocation) (apiBase : String) : String :=
  dropSlashes apiBase ++ "/repos/" ++ l.fullName ++ "/contents"
    ++ (match l.subdirectory with | some sub => "/" ++ sub | none => "")
    ++ (match l.ref with | some ref => "?ref=" ++ ref | none => "")

end RepoLocation

end ImportHarvest

import ImportHarvest.Json.Parser
import ImportHarvest.Text.Utf8
/-!
Entries of a directory listing, and the listings that a response body holds.

A body is taken whole: all its text, all its numbers and all its nesting have to be in order, even where no entry
looks. It is a list of entries, or a single entry, which is the listing of a file.
-/

namespace ImportHarvest

/-- what a listing says of one file or directory -/
structure Entry where
  kind : String
  name : String
  path : String
  downloadUrl : Option String
  url : String
  deriving DecidableEq, Repr

namespace Entry

def fields : Fields := [["type"], ["name"], ["path"], ["download_url"], ["url"]]

def ofJson? (j : Json) : Option Entry := do
  match ← j.record? fields with
  | [kind, name, path, downloadUrl, url] =>
    let kind ← required? Json.string? kind
    let name ← required? Json.string? name
    let path ← required? Json.string? path
    let downloadUrl ← default? none (Json.optional? Json.string?) downloadUrl
    let url ← required? Json.string? url
    return ⟨kind, name, path, downloadUrl, url⟩
  | _ => none

/-- a list of entries -/
def listOfJson? (j : Json) : Option (List Entry) := j.listOf? ofJson?

/-- how deep the lists and objects of a response body may nest -/
def bodyDepth : Nat := 128

/-- the entries that a response body lists -/
def listOfBody? (body : Text.Octets) : Option (List Entry) := do
  let j ← Json.parse? (← Text.utf8Exact? body)
  if !j.strict bodyDepth then none
  match j with
  | .list items => items.mapM fun j => ofJson? j.lastMembers
  | j => (ofJson? j.lastMembers).map fun e => [e]

end Entry

end ImportHarvest

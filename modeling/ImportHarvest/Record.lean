import ImportHarvest.Text.Pieces
import ImportHarvest.Text.Utf8
/-!
Records of a walked tree: a file or a directory, how it is shown, where it stands below the root, and where its content
is to be had.
-/

namespace ImportHarvest

open Text

/-- where a content is -/
inductive ContentRef where
  | url (url : String)
  | path (path : String)
  /-- a path whose octets are no text -/
  | rawPath (path : Octets)
  deriving DecidableEq, Repr

/-- the path of these octets -/
def ContentRef.ofOctets (path : Octets) : ContentRef :=
  match utf8Exact? path with
  | some cs => .path (String.ofList cs)
  | none => .rawPath path

/-- one file or directory of a walk -/
structure Record where
  /-- as shown in the artifact -/
  path : String
  /-- from the root down, with slashes between -/
  relativePath : String
  name : String
  isDir : Bool
  content : ContentRef
  deriving DecidableEq, Repr

namespace Record

def notebookExtension : String := ".ipynb"

/-- whether the record is a notebook by its name -/
def isNotebook (r : Record) : Bool := endsWith notebookExtension r.name

end Record

end ImportHarvest

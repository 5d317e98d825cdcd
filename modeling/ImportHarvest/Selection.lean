import ImportHarvest.LocalTree
import ImportHarvest.Repository
import ImportHarvest.Settings.Config
/-!
Which source an input names: a text that starts with `http` has to be the address of a repository, anything else has to
be a directory that is there.
-/

namespace ImportHarvest

open Text

/-- the source that an input names -/
inductive Selection where
  /-- a repository, by the address of its first listing -/
  | remote (rootUrl : String)
  | directory (tree : LocalTree)
  deriving DecidableEq, Repr

namespace Selection

/-- what is said of an input that names no source -/
def hint : String := "Please provide a GitHub repo URL or a local folder path."

/-- the source that an input names under these settings -/
def ofInput (disk : Disk) (config : Config) (input : String) : Except Failure Selection :=
  let input := trimmed input
  if startsWith "http" input then do
    let location ← RepoLocation.parse input
    return .remote (location.contentsUrl config.apiBaseUrl)
  else if input ≠ "" && disk.isDirectory input then .ok (.directory ⟨input, config.followSymlinks⟩)
  else .error (.invalidInput hint)

/-- the root, for messages -/
def describe : Selection → String
  | remote rootUrl => rootUrl
  | directory tree => tree.root

end Selection

end ImportHarvest

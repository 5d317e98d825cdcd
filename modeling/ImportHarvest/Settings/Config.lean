import ImportHarvest.Repository
import ImportHarvest.Settings.Value
import ImportHarvest.Text.Quoted
/-!
The settings of a run: what they are, what they are by default, how they are read from a record and how they are shown.

The two list settings are brought to normal form when they are read. The token is never shown and never written out.
-/

namespace ImportHarvest

open Text Settings

/-- the settings of a run -/
structure Config where
  outputPath : String
  allowedExtensions : List String
  excludeGlobs : List String
  followSymlinks : Bool
  apiBaseUrl : String
  requestTimeoutSecs : UInt64
  copyToClipboard : Bool
  token : Option String
  deriving DecidableEq, Repr, Inhabited

namespace Config

/-- the settings that nothing changes -/
def standard : Config where
  outputPath := "concatenated_files.txt"
  allowedExtensions := [".py"]
  excludeGlobs := []
  followSymlinks := false
  apiBaseUrl := RepoLocation.defaultApiBase
  requestTimeoutSecs := 30
  copyToClipboard := true
  token := none

/-- the settings by name, in order, with their other names -/
def fields : Fields :=
  [["output_path", "output"], ["allowed_extensions", "extensions"], ["exclude_globs", "exclude_glob"],
   ["follow_symlinks"], ["api_base_url"], ["request_timeout_secs"], ["copy_to_clipboard"], ["token"]]

/-- the settings that the values of the fields give -/
def ofValues? : List (Option Value) → Option Config
  | [output, extensions, globs, follow, base, timeout, clipboard, token] => do
    let output ← default? standard.outputPath Value.text? output
    let extensions ← default? standard.allowedExtensions (fun v => v.items?.map extensionsOf) extensions
    let globs ← default? standard.excludeGlobs (fun v => v.items?.map globsOf) globs
    let follow ← default? standard.followSymlinks Value.truth? follow
    let base ← default? standard.apiBaseUrl Value.text? base
    let timeout ← default? standard.requestTimeoutSecs Value.word? timeout
    let clipboard ← default? standard.copyToClipboard Value.truth? clipboard
    let token ← default? standard.token Value.optionalText? token
    return ⟨output, extensions, globs, follow, base, timeout, clipboard, token⟩
  | _ => none

/-- the settings that a JSON record gives -/
def ofJson? (j : Json) : Option Config := do
  let values ← j.record? fields
  ofValues? (values.map (Option.map Value.ofJson))

/-- the settings that a table of values gives -/
def ofTable? (t : Table) : Option Config := do
  ofValues? (← fields.place? t)

/-! ## Writing -/

def textJson (s : String) : Json := .string (some s)

/-- the settings as a JSON object, without the token -/
def toJson (c : Config) : Json :=
  .object [
    (some "output_path", textJson c.outputPath),
    (some "allowed_extensions", .list (c.allowedExtensions.map textJson)),
    (some "exclude_globs", .list (c.excludeGlobs.map textJson)),
    (some "follow_symlinks", .bool c.followSymlinks),
    (some "api_base_url", textJson c.apiBaseUrl),
    (some "request_timeout_secs", .number (.ofNat c.requestTimeoutSecs.toNat)),
    (some "copy_to_clipboard", .bool c.copyToClipboard)]

/-- the settings as a table of values, without the token -/
def toTable (c : Config) : Table :=
  [("output_path", .text c.outputPath),
   ("allowed_extensions", .list (c.allowedExtensions.map .text)),
   ("exclude_globs", .list (c.excludeGlobs.map .text)),
   ("follow_symlinks", .truth c.followSymlinks),
   ("api_base_url", .text c.apiBaseUrl),
   ("request_timeout_secs", .whole c.requestTimeoutSecs.toNat),
   ("copy_to_clipboard", .truth c.copyToClipboard)]

/-- quoted strings in brackets -/
def showList (xs : List String) : String := "[" ++ ", ".intercalate (xs.map quoted) ++ "]"

def showBool (b : Bool) : String := if b then "true" else "false"

/-- the settings for a log: a token shows only that it is there -/
def describe (c : Config) : String :=
  "Config \x7b output_path: " ++ quotedPath c.outputPath
    ++ ", allowed_extensions: " ++ showList c.allowedExtensions
    ++ ", exclude_globs: " ++ showList c.excludeGlobs
    ++ ", follow_symlinks: " ++ showBool c.followSymlinks
    ++ ", api_base_url: " ++ quoted c.apiBaseUrl
    ++ ", request_timeout_secs: " ++ decimal c.requestTimeoutSecs.toNat
    ++ ", copy_to_clipboard: " ++ showBool c.copyToClipboard
    ++ ", token: " ++ (if c.token.isSome then "Some(\"<redacted>\")" else "None") ++ " \x7d"

end Config

end ImportHarvest

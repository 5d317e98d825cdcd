import ImportHarvest.Disk.Path
import ImportHarvest.Settings.Config
import ImportHarvest.Settings.Environment
import ImportHarvest.Toml.Document
import ImportHarvest.Yaml.Document
/-!
Where settings come from: the standard ones, a file, the environment variables that are named after settings, and the
variable that holds the token. What a later layer gives replaces what an earlier one gave, whatever its type.

The file is the one that is asked for, which has to be there, or else the one with the usual name, if there is one. Its
format goes by its extension.
-/

namespace ImportHarvest.Settings

open Text

/-! ## Layers -/

/-- the table with one entry put in, in the place of the one of that name -/
def put (name : String) (v : Value) : Table → Table
  | [] => [(name, v)]
  | (other, old) :: rest => if other = name then (name, v) :: rest else (other, old) :: put name v rest

/-- the table with the entries of a later layer put in -/
def overlay (t later : Table) : Table := later.foldl (fun t (name, v) => put name v t) t

/-! ## Files -/

/-- the formats that a file may have -/
inductive Format where
  | toml
  | yaml
  deriving DecidableEq, Repr

/-- what follows the last dot of a file's name, unless that dot is its first character -/
def extension? (path : String) : Option String :=
  match (splitOn '.' ((splitOn '/' path).getLastD "")).reverse with
  | ext :: stem :: rest => if rest = [] && stem = "" then none else some ext
  | _ => none

/-- the format of a file by its extension -/
def Format.ofPath (path : String) : Format :=
  if extension? path = some "yml" || extension? path = some "yaml" then .yaml else .toml

/-- the table that a text gives -/
def Format.parse? : Format → List Char → Option Table
  | .toml, text => Toml.parse? text
  | .yaml, text => Yaml.parse? text

/-- the table that a file gives -/
def fileTable? (d : Disk) (path : String) : Option Table := do
  let content ← (d.read path).toOption
  (Format.ofPath path).parse? (← utf8Exact? content)

/-- the usual name of the file -/
def fileName : String := "pipmyride.toml"

/-! ## Loading -/

/-- why settings cannot be loaded -/
inductive LoadError where
  /-- the file that is asked for is not there -/
  | notFound (path : String)
  /-- a file or a value has no meaning -/
  | invalid
  deriving DecidableEq, Repr

def LoadError.message : LoadError → String
  | notFound path => "Config file not found: " ++ path
  | invalid => "Failed to load configuration"

/-- the table of the file layer: the file asked for, or the usual one in the directory `anchor` -/
def fileLayer (d : Disk) (anchor : String) (explicit : Option String) : Except LoadError Table :=
  let table (path : String) := match fileTable? d path with
    | some t => .ok t
    | none => .error .invalid
  match explicit with
  | some path => if d.isFile path then table path else .error (.notFound path)
  | none =>
    let path := joinPath anchor fileName
    if d.isFile path then table path else .ok []

/-- a token that is more than blanks -/
def realToken (token : Option String) : Option String := token.filter fun t => !isAllBlank t

/-- the settings that all layers give -/
def load (d : Disk) (env : Environment) (anchor : String) (explicit : Option String) : Except LoadError Config := do
  let file ← fileLayer d anchor explicit
  match Config.ofTable? ([file, env.settings, env.token].foldl overlay Config.standard.toTable) with
  | some config => return { config with token := realToken config.token }
  | none => throw .invalid

end ImportHarvest.Settings

import ImportHarvest.Settings.Overrides
import ImportHarvest.Text.Pieces
/-!
The arguments of the command line, and what they ask for.

An argument that starts with a dash, other than a lone dash, is an option; after `--` none is. A short option may have
others behind it in the same argument, and an option that takes a value takes the rest of its argument, with or without
an equals sign, or else the next argument, which then may not start with a dash. Each option, and the source, may be
given once. Arguments are taken in order, so help and version are shown when nothing before them is wrong.
-/

namespace ImportHarvest.CommandLine

open Text Settings

/-- the options that take a value -/
inductive ValueOption where
  | output
  | config
  | extensions
  | excludeGlob
  | completions
  deriving DecidableEq, Repr

/-- the options that take none -/
inductive Switch where
  | followSymlinks
  | noClipboard
  | verbose
  deriving DecidableEq, Repr

/-- what an option is -/
inductive Meaning where
  | value (o : ValueOption)
  | switch (s : Switch)
  | help
  | version
  deriving DecidableEq, Repr

/-- the options by their long names -/
def longOptions : List (String × Meaning) :=
  [("output", .value .output), ("config", .value .config), ("extensions", .value .extensions),
   ("exclude-glob", .value .excludeGlob), ("follow-symlinks", .switch .followSymlinks),
   ("no-clipboard", .switch .noClipboard), ("completions", .value .completions), ("verbose", .switch .verbose),
   ("help", .help), ("version", .version)]

/-- the options by their short names -/
def shortOptions : List (Char × Meaning) :=
  [('o', .value .output), ('c', .value .config), ('x', .value .extensions), ('e', .value .excludeGlob),
   ('v', .switch .verbose), ('h', .help), ('V', .version)]

/-- the shells that completions can be printed for -/
def shells : List String := ["bash", "elvish", "fish", "powershell", "zsh"]

/-- whether an option takes this value: a file needs a name, and a shell has to be known -/
def ValueOption.takes : ValueOption → String → Bool
  | output, v => v ≠ ""
  | config, v => v ≠ ""
  | completions, v => shells.contains v
  | extensions, _ => true
  | excludeGlob, _ => true

/-- what was given so far -/
structure Arguments where
  source : Option String
  values : List (ValueOption × String)
  switches : List Switch
  deriving DecidableEq, Repr, Inhabited

/-- why arguments are not followed: they are wrong, or help or version is asked for -/
inductive Halt where
  | usage
  | help
  | version
  deriving DecidableEq, Repr

namespace Arguments

def empty : Arguments := ⟨none, [], []⟩

/-- the value of an option -/
def value? (a : Arguments) (o : ValueOption) : Option String := a.values.lookup o

def setValue (a : Arguments) (o : ValueOption) (v : String) : Except Halt Arguments :=
  if (a.value? o).isSome || !o.takes v then .error .usage else .ok { a with values := a.values ++ [(o, v)] }

def setSwitch (a : Arguments) (s : Switch) : Except Halt Arguments :=
  if a.switches.contains s then .error .usage else .ok { a with switches := a.switches ++ [s] }

def setSource (a : Arguments) (s : String) : Except Halt Arguments :=
  if a.source.isSome then .error .usage else .ok { a with source := some s }

/-- the items of a list that an option gives, without the blanks around them; blank ones do not count -/
def listed (written : String) : List String := ((splitOn ',' written).map trimmed).filter (· ≠ "")

/-- the extensions that an option gives, each once -/
def listedExtensions (written : String) : List String := firstSeen ((listed written).filterMap normalizeExtension)

/-- the settings that the arguments override -/
def overrides (a : Arguments) : Overrides where
  outputPath := a.value? .output
  allowedExtensions := (a.value? .extensions).map listedExtensions
  excludeGlobs := (a.value? .excludeGlob).map listed
  followSymlinks := if a.switches.contains .followSymlinks then some true else none
  copyToClipboard := if a.switches.contains .noClipboard then some false else none

end Arguments

/-! ## Reading -/

/-- how far the arguments are read: what was given, the option that still needs a value, and whether a dash has lost its
meaning -/
structure Reading where
  given : Arguments
  pending : Option ValueOption
  plain : Bool
  deriving DecidableEq, Repr

/-- whether an argument is read as options -/
def isDashed (arg : String) : Bool := startsWith "-" arg && arg ≠ "-"

/-- short options, one after the other -/
def shortRun (r : Reading) : List Char → Except Halt Reading
  | [] => .ok r
  | c :: cs =>
    match shortOptions.lookup c with
    | none => .error .usage
    | some .help => .error .help
    | some .version => .error .version
    | some (.switch s) =>
      match r.given.setSwitch s with
      | .ok given => shortRun { r with given := given } cs
      | .error e => .error e
    | some (.value o) =>
      match cs with
      | [] => .ok { r with pending := some o }
      | '=' :: v => (r.given.setValue o (String.ofList v)).map fun given => { r with given := given }
      | v => (r.given.setValue o (String.ofList v)).map fun given => { r with given := given }

/-- a long option, with a value when an equals sign follows its name -/
def long (r : Reading) (cs : List Char) : Except Halt Reading :=
  let name := cs.takeWhile (· ≠ '=')
  let attached := match cs.drop name.length with
    | [] => none
    | _ :: v => some (String.ofList v)
  match longOptions.lookup (String.ofList name), attached with
  | some (.value o), some v => (r.given.setValue o v).map fun given => { r with given := given }
  | some (.value o), none => .ok { r with pending := some o }
  | some (.switch s), none => (r.given.setSwitch s).map fun given => { r with given := given }
  | some .help, none => .error .help
  | some .version, none => .error .version
  | _, _ => .error .usage

/-- one argument more -/
def step (r : Reading) (arg : String) : Except Halt Reading :=
  match r.pending with
  | some o =>
    if isDashed arg then .error .usage
    else (r.given.setValue o arg).map fun given => { r with given := given, pending := none }
  | none =>
    if r.plain || !isDashed arg then (r.given.setSource arg).map fun given => { r with given := given }
    else if arg = "--" then .ok { r with plain := true }
    else match dropStart? "--".toList arg.toList with
      | some cs => long r cs
      | none => shortRun r (arg.toList.drop 1)

/-- what the arguments give -/
def Arguments.read (args : List String) : Except Halt Arguments := do
  let r ← args.foldlM step ⟨.empty, none, false⟩
  if r.pending.isSome then throw .usage
  return r.given

end ImportHarvest.CommandLine

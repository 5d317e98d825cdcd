import ImportHarvest.CommandLine.Arguments
import ImportHarvest.CommandLine.Help
import ImportHarvest.CommandLine.Report
import ImportHarvest.Http
import ImportHarvest.Selection
import ImportHarvest.Settings.Layers
/-!
The command as a whole: what it prints, how it ends and what it leaves on disk, given its arguments and what it runs in.

Settings are loaded before a source is asked for, and a source is settled before the artifact is touched. So a run that
fails in its settings or its source leaves the file system as it was.
-/

namespace ImportHarvest.CommandLine

open Text Settings

/-- what a command runs in -/
structure Session where
  env : Environment
  /-- all of the standard input -/
  input : String
  disk : Disk
  /-- the web that requests go to -/
  web : Web
  /-- the completion script for a shell -/
  completions : String → String
  /-- what becomes of copying the command -/
  clipboard : CopyStatus
  /-- how long the run takes, as it is shown -/
  elapsed : String

/-- how a command ends -/
structure Ending where
  code : Nat
  output : String
  /-- what is said of a failure -/
  error : Option String
  disk : Disk
  requests : List HttpRequest

namespace Session

/-- ends with nothing done -/
def done (s : Session) (output : String) : Ending := ⟨0, output, none, s.disk, []⟩

/-- ends with a failure before anything is done -/
def fail (s : Session) (output : String) (chain : List String) : Ending :=
  ⟨1, output, some (failureText chain), s.disk, []⟩

/-- the input's first line, without the blanks around it -/
def firstLine (s : Session) : String := String.ofList (trim (s.input.toList.takeWhile (· ≠ '\n')))

/-- whether colours are wanted where no terminal shows them -/
def colours (s : Session) : Bool := (s.env.lookup "CLICOLOR_FORCE").any (· ≠ "0")

/-- the settings that a command runs with -/
def config (s : Session) (a : Arguments) : Except LoadError Config :=
  (load s.disk s.env "." (a.value? .config)).map fun c => c.override a.overrides

/-- the prompt, if a source has to be asked for, and the source -/
def source (s : Session) (a : Arguments) : String × String :=
  match a.source with
  | some source => ("", source)
  | none => (prompt, s.firstLine)

/-- the client that a run uses -/
def client (s : Session) (config : Config) : HttpClient := ⟨s.web, config.token⟩

/-- the run of a source; its walk may take so many steps -/
def pipeline (steps : Nat) (s : Session) (config : Config) : Selection → Option Run
  | .remote rootUrl => runPipeline steps (RemoteTree.source ⟨(s.client config).api, rootUrl⟩) config s.disk
  | .directory tree => runPipeline steps tree.source config s.disk

/-- the ending of a run -/
def ending (s : Session) (config : Config) (prompted source : String) (run : Run) : Ending :=
  let shown := prompted ++ String.join (run.processed.map progress)
  let requests := (s.client config).sent run.requests
  match run.result with
  | .error e => ⟨1, shown, some (failureText e.chain), run.disk, requests⟩
  | .ok o =>
    let copied := if config.copyToClipboard then some s.clipboard else none
    ⟨0, shown ++ unlines (reportLines s.colours source o s.elapsed copied), none, run.disk, requests⟩

/-- what arguments that ask for a run come to; nothing when its walk takes more steps -/
def start (steps : Nat) (s : Session) (a : Arguments) : Option Ending :=
  match s.config a with
  | .error e => some (s.fail "" [e.message])
  | .ok config =>
    let (prompted, input) := s.source a
    match Selection.ofInput s.disk config input with
    | .error e => some (s.fail prompted e.chain)
    | .ok selection => (s.pipeline steps config selection).map (s.ending config prompted selection.describe)

/-- what a command line comes to; nothing when the walk of its source takes more steps -/
def run (steps : Nat) (s : Session) (args : List String) : Option Ending :=
  match Arguments.read args with
  | .error .usage => some ⟨2, "", none, s.disk, []⟩
  | .error .help => some (s.done help)
  | .error .version => some (s.done version)
  | .ok a =>
    match a.value? .completions with
    | some shell => some (s.done (s.completions shell))
    | none => s.start steps a

/-- whether a command line comes to the point where the source is read from the input -/
def asks (s : Session) (args : List String) : Bool :=
  match Arguments.read args with
  | .error _ => false
  | .ok a => (a.value? .completions).isNone && a.source.isNone && (s.config a).toOption.isSome

end Session

end ImportHarvest.CommandLine

import ImportHarvest.Aggregate
import ImportHarvest.Imports
import ImportHarvest.LocalTree
import ImportHarvest.RemoteTree
import ImportHarvest.Settings.Config
/-!
A whole run: a source is put together in the artifact, the artifact is read back, and the modules that it imports give
the install command.

The globs are looked at before anything is written. The artifact is created, or emptied, before the walk starts, so a
walk of the directory it lies in meets it, and a read of it gives what has reached the file by then.
-/

namespace ImportHarvest

open Text

/-- what a run comes to, besides the artifact -/
structure Outcome where
  outputPath : String
  stats : RunStats
  modules : NameSet
  command : String

/-- why a run fails -/
inductive RunError where
  /-- an exclude glob has no meaning -/
  | badGlob (cause : Failure)
  /-- the artifact cannot be created -/
  | create (path : String) (cause : Fault)
  /-- the source cannot be put together -/
  | aggregate (source : String) (cause : Failure)
  /-- the artifact cannot be read back -/
  | readBack (path : String) (cause : Fault)
  deriving DecidableEq, Repr

namespace RunError

/-- what is said of the run, then what caused it, from the outside in -/
def chain : RunError → List String
  | badGlob cause => "Invalid exclude glob" :: cause.chain
  | create path cause => ["Failed to create " ++ path, cause.message]
  | aggregate source cause => ("Failed to aggregate " ++ source) :: cause.chain
  | readBack path cause => ["Failed to read back " ++ path, cause.message]

/-- the failure of a walk, a read or a setting that is behind it, if there is one -/
def failure? : RunError → Option Failure
  | badGlob cause => some cause
  | aggregate _ cause => some cause
  | _ => none

end RunError

/-- how a run ended: its result and the file system, the requests and the files taken up that it leaves -/
structure Run where
  result : Except RunError Outcome
  disk : Disk
  requests : List Request
  processed : List Record

/-- runs a source into the artifact, for at most so many steps of its walk -/
def runPipeline (steps : Nat) (source : TreeSource BufferedFile) (config : Config) (disk : Disk) : Option Run :=
  match Filter.make config.allowedExtensions config.excludeGlobs with
  | .error e => some ⟨.error (.badGlob e), disk, [], []⟩
  | .ok filter =>
    match disk.create config.outputPath with
    | .error e => some ⟨.error (.create config.outputPath e), disk, [], []⟩
    | .ok (place, disk) =>
      match aggregate steps source filter { output := ⟨disk, place, []⟩ } with
      | none => none
      | some (.error e, w) =>
        some ⟨.error (.aggregate source.describe e), w.output.settle.disk, w.requests, w.processed⟩
      | some (.ok stats, w) =>
        let disk := w.output.settle.disk
        match disk.read config.outputPath with
        | .error e => some ⟨.error (.readBack config.outputPath e), disk, w.requests, w.processed⟩
        | .ok artifact =>
          let modules := harvest (decode artifact)
          some ⟨.ok ⟨config.outputPath, stats, modules, installCommand modules⟩, disk, w.requests, w.processed⟩

/-- a directory on disk as a source, where `disk` is the file system at an output: its walk sees the file system as it is
when the walk starts, its reads as it is when they happen -/
def LocalTree.sourceOn {τ : Type} (disk : τ → Disk) (t : LocalTree) : TreeSource τ :=
  .ofItems t.root (fun w => (t.walk (disk w.output)).items) (fun r w => LocalTree.read (disk w.output) r)

/-- a directory on disk as a source of a run whose artifact lies on that disk -/
def LocalTree.source (t : LocalTree) : TreeSource BufferedFile := t.sourceOn BufferedFile.disk

end ImportHarvest

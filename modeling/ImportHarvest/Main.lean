import ImportHarvest.CommandLine.Run
import ImportHarvest.Disk.Changes
/-!
The program: it takes the working directory in, runs the command on it, prints what the command prints and writes the
files that it changed. Paths lead to what is below the working directory, and to the null device. No network and no
clipboard are attached, so a repository cannot be reached, and the install command is printed only.
-/

namespace ImportHarvest.Program

open Text CommandLine

/-- the octets of an array of bytes -/
def octets (bytes : ByteArray) : Octets := bytes.toList

/-- the variables that a process starts with, by name -/
def environment : IO Settings.Environment := do
  let block ← try IO.FS.readBinFile "/proc/self/environ" catch _ => pure .empty
  let entries := splitOn '\x00' (String.ofList (utf8Marking (octets block)))
  return entries.filterMap fun e =>
    match e.splitOn "=" with
    | name :: value :: more => some (name, "=".intercalate (value :: more))
    | _ => none

/-- the path of nothing -/
def nowhere : String := "/\x00"

/-- the node that a directory entry is, with all that is below it; a link leads where it ends -/
partial def readEntry (entry : IO.FS.DirEntry) : IO (String × Node) := do
  let node ← match (← entry.path.symlinkMetadata).type with
    | .dir => do
      let children ← (← entry.path.readDir).toList.mapM readEntry
      pure (Node.directory children)
    | .file => Node.file <$> octets <$> IO.FS.readBinFile entry.path
    | .symlink => Node.link <$> (try toString <$> IO.FS.realPath entry.path catch _ => pure nowhere)
    | .other => pure (.special .pipe)
  return (entry.fileName, node)

/-- the null device, and no working directory yet -/
def devices : Disk := { entries := [("dev", .directory [("null", .special .nullDevice)])] }

/-- the working directory as it is now, and the null device -/
def disk : IO Disk := do
  let path ← IO.currentDir
  let here := (Disk.steps path.toString).filter (· ≠ "")
  let children ← (← path.readDir).toList.mapM readEntry
  return { devices.put here (.directory children) with here }

/-- more steps than a walk takes -/
def steps : Nat := 1000000000

/-- writes what a command changed -/
def writeChanges (before after : Disk) : IO Unit := do
  for (place, content) in before.changes after do
    IO.FS.writeBinFile ("/" ++ join "/" place) ⟨content.toArray⟩

/-- runs the command with these arguments, and gives its exit code -/
def run (args : List String) : IO UInt32 := do
  let began ← IO.monoMsNow
  let before ← disk
  let session : Session := {
    env := ← environment
    input := ""
    disk := before
    web := .answering fun _ => .error "no network is attached"
    completions := completionScript
    clipboard := .unavailable "Clipboard not available: none is attached"
    elapsed := secondsText ((← IO.monoMsNow) - began) }
  let asks := session.asks args
  let out ← IO.getStdout
  if asks then
    out.putStr prompt
    out.flush
  let input ← if asks then (← IO.getStdin).getLine else pure ""
  match { session with input := input }.run steps args with
  | none => return 1
  | some ending =>
    writeChanges before ending.disk
    out.putStr (if asks then (ending.output.drop prompt.length).toString else ending.output)
    if let some error := ending.error then (← IO.getStderr).putStrLn error
    return UInt32.ofNat ending.code

end ImportHarvest.Program

/-- the command, run with the arguments of the process -/
def main (args : List String) : IO UInt32 := ImportHarvest.Program.run args

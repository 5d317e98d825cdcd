import ImportHarvest.Pipeline
import ImportHarvest.Text.Grouped
/-!
What the command prints: the prompt, a line for each file that is taken up, the report of a run and the report of a
failure. Lines end with a line feed; the prompt does not.
-/

namespace ImportHarvest.CommandLine

open Text

/-- asks for the source -/
def prompt : String := "Enter GitHub repo URL or local folder path: "

/-- says that a file is taken up -/
def progress (r : Record) : String := "Processing " ++ r.path ++ "...\n"

/-- what became of copying the command -/
inductive CopyStatus where
  | copied
  | unavailable (reason : String)
  deriving DecidableEq, Repr

def CopyStatus.line : CopyStatus → String
  | copied => "The command has been copied to your clipboard and console "
      ++ "(on X11/Wayland it outlives this process only if a clipboard manager is running)."
  | unavailable reason => reason ++ "; the command is printed above."

/-! ## Colours -/

/-- how text is set off -/
inductive Style where
  | bold
  | green
  deriving DecidableEq, Repr

def Style.code : Style → String
  | bold => "1"
  | green => "32"

/-- the text in a style, where colours are wanted -/
def styled (colours : Bool) (style : Style) (text : String) : String :=
  if colours then "\x1b[" ++ style.code ++ "m" ++ text ++ "\x1b[0m" else text

/-! ## A run -/

/-- milliseconds as seconds with two places -/
def secondsText (milliseconds : Nat) : String :=
  let hundredths := milliseconds / 10
  decimal (hundredths / 100) ++ "." ++ decimal (hundredths / 10 % 10) ++ decimal (hundredths % 10) ++ "s"

/-- a line of the statistics for something that was skipped, left out when nothing was -/
def skippedLine (label : String) (count : Nat) : List String := if count = 0 then [] else [label ++ decimal count]

/-- what was skipped, by reason -/
def skippedLines (s : RunStats) : List String :=
  match skippedLine "    extension:   " s.filesSkippedExtension ++ skippedLine "    glob:        " s.filesSkippedGlob
      ++ skippedLine "    malformed:   " s.filesSkippedMalformed with
  | [] => []
  | lines => "  Files skipped:" :: lines

/-- the report of a run; `elapsed` is how long it took, `copied` what became of copying the command -/
def reportLines (colours : Bool) (source : String) (o : Outcome) (elapsed : String) (copied : Option CopyStatus) :
    List String :=
  ["All files processed.",
   "",
   styled colours .bold "Statistics:",
   "  Source:          " ++ source,
   "  Files seen:      " ++ decimal o.stats.filesSeen,
   "  Files included:  " ++ decimal o.stats.filesIncluded]
  ++ skippedLines o.stats
  ++ ["  Bytes written:   " ++ grouped o.stats.bytesWritten,
      "  Modules found:   " ++ decimal o.modules.size,
      "  Output file:     " ++ o.outputPath,
      "  Processing time: " ++ elapsed,
      "",
      "Generated pip install command:",
      styled colours .green o.command]
  ++ (match copied with
      | none => []
      | some status => ["", status.line])

/-- lines as text -/
def unlines (ls : List String) : String := String.join (ls.map fun l => l ++ "\n")

/-! ## A failure -/

/-- a cause with what its first line starts with, and its other lines under the first one's text -/
def causeText (start : String) (cause : String) : String :=
  start ++ join ("\n" ++ String.ofList (start.toList.map fun _ => ' ')) (splitOn '\n' cause)

/-- what a failure says, then what caused it; several causes are numbered -/
def failureText : List String → String
  | [] => "Error: "
  | [message] => "Error: " ++ message
  | [message, cause] => "Error: " ++ message ++ "\n\nCaused by:\n" ++ causeText "    " cause
  | message :: causes =>
    "Error: " ++ message ++ "\n\nCaused by:\n"
      ++ join "\n" (causes.zipIdx.map fun (cause, i) => causeText ("    " ++ decimal i ++ ": ") cause)

end ImportHarvest.CommandLine

import ImportHarvest.Filter
import ImportHarvest.Notebook
import ImportHarvest.Sink
import ImportHarvest.Source
import ImportHarvest.Text.Decode
/-!
Putting the files of a tree together in one artifact.

Each file that is taken becomes a block: a header that names it, its text, and an empty line. Files are taken in walk
order, read when their turn comes, and counted by what became of them; a notebook goes in as its script, and one that
has none is passed over. Any other failure ends the run, and what was written until then stays.

`aggregate` runs over any source. `selection` says what a walk without failures comes to when the contents are known:
which files are taken, with which text.
-/

namespace ImportHarvest

open Text

/-! ## Blocks -/

/-- the header of a block -/
def blockHeader (path : String) : String := "# ---\n# Filename: " ++ path ++ "\n# ---\n\n"

/-- what ends a block -/
def blockTrailer : String := "\n\n"

/-- the texts that a block is written in -/
def blockTexts (path body : String) : List String := [blockHeader path, body, blockTrailer]

/-- a whole block -/
def block (path body : String) : String := String.join (blockTexts path body)

/-- what sink faults are reported at -/
def outputLabel : String := "<output>"

/-- writes one text after the other, up to the first that fails -/
def writeAll {τ : Type} [Sink τ] : List String → τ → Except Fault Unit × τ
  | [], s => (.ok (), s)
  | text :: rest, s =>
    match Sink.write (utf8Of text) s with
    | (.ok _, s) => writeAll rest s
    | (.error e, s) => (.error e, s)

/-- writes a block, and tells how many octets it has -/
def writeBlock {τ : Type} [Sink τ] (path body : String) (s : τ) : Except Failure Nat × τ :=
  match writeAll (blockTexts path body) s with
  | (.ok _, s) => (.ok ((blockTexts path body).flatMap utf8Of).length, s)
  | (.error e, s) => (.error (.io outputLabel e), s)

/-! ## Counting -/

/-- what became of the records of a walk -/
structure RunStats where
  filesSeen : Nat := 0
  directoriesSeen : Nat := 0
  filesIncluded : Nat := 0
  filesSkippedExtension : Nat := 0
  filesSkippedGlob : Nat := 0
  filesSkippedMalformed : Nat := 0
  bytesWritten : Nat := 0
  deriving DecidableEq, Repr, Inhabited

namespace RunStats

def directory (s : RunStats) : RunStats := { s with directoriesSeen := s.directoriesSeen + 1 }

def skipExtension (s : RunStats) : RunStats :=
  { s with filesSeen := s.filesSeen + 1, filesSkippedExtension := s.filesSkippedExtension + 1 }

def skipGlob (s : RunStats) : RunStats :=
  { s with filesSeen := s.filesSeen + 1, filesSkippedGlob := s.filesSkippedGlob + 1 }

def skipMalformed (s : RunStats) : RunStats :=
  { s with filesSeen := s.filesSeen + 1, filesSkippedMalformed := s.filesSkippedMalformed + 1 }

def takeIn (bytes : Nat) (s : RunStats) : RunStats :=
  { s with filesSeen := s.filesSeen + 1, filesIncluded := s.filesIncluded + 1, bytesWritten := s.bytesWritten + bytes }

end RunStats

/-! ## Runs -/

/-- what a filter makes of a record -/
inductive Verdict where
  | directory
  | otherExtension
  | excluded
  | taken
  deriving DecidableEq, Repr

def Filter.verdict (f : Filter) (r : Record) : Verdict :=
  if r.isDir then .directory
  else if !f.isEligible r.name then .otherExtension
  else if f.isExcluded r.relativePath then .excluded
  else .taken

/-- the text that a file's content gives the artifact, or nothing when it is a notebook without a script -/
def bodyOf (r : Record) (content : Octets) : Option String :=
  if r.isNotebook then (scriptOf (decode content)).toOption else some (decode content)

/-- how far a run of a source has come: where its walk stands, what was counted, and the world -/
structure Progress {τ : Type} (source : TreeSource τ) where
  cursor : source.Cursor
  stats : RunStats
  world : World τ

namespace Progress

variable {τ : Type} [Sink τ] {source : TreeSource τ}

/-- a run that has not begun -/
def start (source : TreeSource τ) (w : World τ) : Progress source := ⟨source.start w, {}, w⟩

/-- asks for the next record -/
def next (p : Progress source) : WalkItem × Progress source :=
  let (item, cursor, asked) := source.next p.cursor p.world
  (item, { p with cursor, world := p.world.request asked })

/-- takes a file up and asks for its content -/
def read (r : Record) (p : Progress source) : Except Failure Octets × Progress source :=
  let w := p.world.process r
  let (content, cursor, asked) := source.read r p.cursor w
  (content, { p with cursor, world := w.request asked })

/-- writes the block of a file with that content, or passes it over when it has no text; tells what went wrong -/
def store (r : Record) (content : Octets) (p : Progress source) : Option Failure × Progress source :=
  match bodyOf r content with
  | none => (none, { p with stats := p.stats.skipMalformed })
  | some body =>
    match writeBlock r.path body p.world.output with
    | (.ok bytes, output) => (none, { p with stats := p.stats.takeIn bytes, world := { p.world with output } })
    | (.error e, output) => (some e, { p with world := { p.world with output } })

/-- reads a file that is taken and writes its block -/
def takeFile (r : Record) (p : Progress source) : Option Failure × Progress source :=
  match p.read r with
  | (.error e, p) => (some e, p)
  | (.ok content, p) => p.store r content

/-- deals with a record by what the filter makes of it -/
def takeRecord (filter : Filter) (r : Record) (p : Progress source) : Option Failure × Progress source :=
  match filter.verdict r with
  | .directory => (none, { p with stats := p.stats.directory })
  | .otherExtension => (none, { p with stats := p.stats.skipExtension })
  | .excluded => (none, { p with stats := p.stats.skipGlob })
  | .taken => p.takeFile r

/-- the end of a run: what is kept back goes to the output -/
def finish (p : Progress source) : Except Failure RunStats × Progress source :=
  match Sink.flush p.world.output with
  | (.ok _, output) => (.ok p.stats, { p with world := { p.world with output } })
  | (.error e, output) => (.error (.io outputLabel e), { p with world := { p.world with output } })

/-- one step of a run, the next record asked for and dealt with; it gives the result when it was the last -/
def step (filter : Filter) (p : Progress source) : Option (Except Failure RunStats) × Progress source :=
  match p.next with
  | (none, p) => let (result, p) := p.finish; (some result, p)
  | (some (.error e), p) => (some (.error e), p)
  | (some (.ok r), p) => let (failure, p) := p.takeRecord filter r; (failure.map .error, p)

/-- so many steps, or fewer when the run is over before; it gives no result when there are more -/
def run (filter : Filter) : Nat → Progress source → Option (Except Failure RunStats) × Progress source
  | 0, p => (none, p)
  | steps + 1, p =>
    match p.step filter with
    | (none, p) => run filter steps p
    | (some result, p) => (some result, p)

end Progress

/-- walks a source, writes the blocks of its files and counts what it meets; a walk of so many steps or more gives
nothing -/
def aggregate {τ : Type} [Sink τ] (steps : Nat) (source : TreeSource τ) (filter : Filter) (w : World τ) :
    Option (Except Failure RunStats × World τ) :=
  match (Progress.start source w).run filter steps with
  | (none, _) => none
  | (some result, p) => some (result, p.world)

/-! ## Selection -/

/-- the files that go into the artifact, with their texts, when the contents are known -/
def selection (filter : Filter) (files : List (Record × Octets)) : List (Record × String) :=
  files.filterMap fun (r, content) =>
    if filter.verdict r = .taken then (bodyOf r content).map fun body => (r, body) else none

/-- the blocks of a selection, one after the other -/
def blocks (selected : List (Record × String)) : String :=
  String.join (selected.map fun (r, body) => block r.path body)

end ImportHarvest

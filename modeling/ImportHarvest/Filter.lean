import ImportHarvest.Failure
import ImportHarvest.Glob.Parser
/-!
Which files go into the artifact. A file is eligible when its name ends with an allowed extension, and excluded when an
exclude glob matches its path.
-/

namespace ImportHarvest

open Text

/-- the allowed extensions and the exclude globs -/
structure Filter where
  extensions : List String
  excludes : List Glob
  deriving Repr

namespace Filter

/-- whether a file of that name may be taken -/
def isEligible (f : Filter) (name : String) : Bool := f.extensions.any fun ext => endsWith ext name

/-- the text without `./` at its start, however often it stands there -/
def dropDotSlash : List Char → List Char
  | '.' :: '/' :: cs => dropDotSlash cs
  | cs => cs

/-- the path as globs see it: slashes for backslashes, and no `./` in front -/
def normalPath (path : String) : List Char := dropDotSlash (replace '\\' '/' path).toList

/-- whether an exclude glob matches the path -/
def isExcluded (f : Filter) (path : String) : Bool :=
  let octets := utf8 (normalPath path)
  f.excludes.any fun g => g.isMatch octets

/-- what is said of a glob that has no meaning -/
def globMessage (pattern : String) (e : Glob.PatternError) : String :=
  "invalid exclude glob '" ++ pattern ++ "': error parsing glob '" ++ pattern ++ "': " ++ e.message

/-- a filter from extensions and globs; the first glob without a meaning is told -/
def make (extensions globs : List String) : Except Failure Filter :=
  (globs.mapM fun pattern =>
    (Glob.parse pattern).mapError fun e => Failure.config (globMessage pattern e)).map fun gs => ⟨extensions, gs⟩

end Filter

end ImportHarvest

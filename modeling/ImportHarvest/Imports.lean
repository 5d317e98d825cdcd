import ImportHarvest.NameSet
import ImportHarvest.Text.Pieces
import ImportHarvest.Text.Word
/-!
The modules that a text imports, and the command that installs them.

Only a statement in column zero counts, and only the first name in it: `import a.b` and `from a.b import c` both name
`a`. A line starts at the start of the text and after each line feed. `harvest` finds the names in one pass over the
text; `lineImport` says what one line names, and `lineByLine` puts that together for a whole text.
-/

namespace ImportHarvest

open Text

/-- the two ways in which an import statement begins -/
def importStarts : List (List Char) := ["import ".toList, "from ".toList]

/-- the longest run of word characters at the start of a text -/
def leadingWord (cs : List Char) : List Char := cs.takeWhile isWord

/-- the name that follows `start` at the start of the text, and how many characters both take up -/
def nameAfter (cs start : List Char) : Option (List Char × Nat) :=
  match dropStart? start cs with
  | none => none
  | some rest => if leadingWord rest = [] then none else some (leadingWord rest, start.length + (leadingWord rest).length)

/-- the name that an import statement at the start of the text gives, and how many characters it takes up -/
def importAt (cs : List Char) : Option (List Char × Nat) := importStarts.findSome? (nameAfter cs)

/-- the names that a text imports, in order and with repeats; `atStart` tells whether a line starts here -/
def scanImports (atStart : Bool) : List Char → List (List Char)
  | [] => []
  | c :: cs =>
    match if atStart then importAt (c :: cs) else none with
    | some (name, taken) => name :: scanImports false (cs.drop (taken - 1))
    | none => scanImports (c = '\n') cs
termination_by cs => cs.length
decreasing_by all_goals simp only [List.length_drop, List.length_cons]; omega

/-- the modules that a text imports -/
def harvest (text : String) : NameSet := .ofList ((scanImports true text.toList).map String.ofList)

/-- the name that one line imports -/
def lineImport (line : List Char) : Option (List Char) := (importAt line).map Prod.fst

/-- the names that a text imports, read line by line -/
def lineByLine (text : String) : List String :=
  ((pieces '\n' text.toList).filterMap lineImport).map String.ofList

/-- what every install command begins with -/
def installStart : String := "pip install "

/-- the command that installs the modules -/
def installCommand (modules : NameSet) : String := installStart ++ " ".intercalate modules.toList

end ImportHarvest

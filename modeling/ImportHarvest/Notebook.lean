import ImportHarvest.Failure
import ImportHarvest.Json.Parser
/-!
Notebooks, and the script that their cells make.

A notebook is a JSON record with cells at its top level, or with worksheets that hold cells. A cell has its text under
`source`, or else under `input`, as one string or as a list of strings. The script is the text of every cell that has
one, in document order; a line break is added only where a cell's text does not end with one.
-/

namespace ImportHarvest

/-- a cell: its text under either name, if it is there -/
structure Cell where
  source : Option String
  input : Option String
  deriving DecidableEq, Repr

/-- a notebook: cells at the top, and the cells of each worksheet -/
structure Notebook where
  cells : Option (List Cell)
  worksheets : Option (List (List Cell))
  deriving DecidableEq, Repr

namespace Cell

/-- a cell's text, written as one string or as a list of them -/
def textOf? (j : Json) : Option String :=
  match j with
  | .string text => text
  | .list lines => (lines.mapM Json.string?).map String.join
  | _ => none

def fields : Fields := [["cell_type"], ["source"], ["input"]]

def ofJson? (j : Json) : Option Cell := do
  match ← j.record? fields with
  | [cellType, source, input] =>
    let _ ← default? "" Json.string? cellType
    let source ← default? none (Json.optional? textOf?) source
    let input ← default? none (Json.optional? textOf?) input
    return ⟨source, input⟩
  | _ => none

/-- the text of a cell -/
def text? (c : Cell) : Option String := c.source <|> c.input

end Cell

namespace Notebook

def worksheetFields : Fields := [["cells"]]

def worksheetOfJson? (j : Json) : Option (List Cell) := do
  match ← j.record? worksheetFields with
  | [cells] => default? [] (Json.listOf? Cell.ofJson?) cells
  | _ => none

def fields : Fields := [["cells"], ["worksheets"]]

def ofJson? (j : Json) : Option Notebook := do
  match ← j.record? fields with
  | [cells, worksheets] =>
    let cells ← default? none (Json.optional? (Json.listOf? Cell.ofJson?)) cells
    let worksheets ← default? none (Json.optional? (Json.listOf? worksheetOfJson?)) worksheets
    return ⟨cells, worksheets⟩
  | _ => none

/-- the cells in document order: those at the top, or else those of the worksheets -/
def allCells? (n : Notebook) : Option (List Cell) := n.cells <|> n.worksheets.map List.flatten

end Notebook

/-! ## Script -/

/-- whether a text ends inside a line -/
def isOpenLine (script : List Char) : Bool := script.getLast?.any (· ≠ '\n')

/-- the text with its last line ended -/
def endLine (script : List Char) : List Char := if isOpenLine script then script ++ ['\n'] else script

/-- the script of a list of cell texts -/
def joinCells (texts : List (List Char)) : List Char :=
  endLine (texts.foldl (fun script text => endLine script ++ text) [])

/-- why a notebook gives no script -/
inductive NotebookError where
  | notANotebook
  | noCells
  deriving DecidableEq, Repr

/-- what is said of a notebook without a script -/
def NotebookError.message : NotebookError → String
  | .notANotebook => "not a notebook"
  | .noCells => "document has no cells"

/-- what a document without a script is to a run -/
def NotebookError.failure (e : NotebookError) : Failure := .malformed e.message

/-- the script of a notebook -/
def Notebook.script (n : Notebook) : Except NotebookError String :=
  match n.allCells? with
  | none => .error .noCells
  | some cells => .ok (String.ofList (joinCells (cells.filterMap fun c => c.text?.map String.toList)))

/-- the script of the notebook that a text holds -/
def scriptOf (text : String) : Except NotebookError String :=
  match (Json.ofString? text).bind Notebook.ofJson? with
  | none => .error .notANotebook
  | some n => n.script

end ImportHarvest

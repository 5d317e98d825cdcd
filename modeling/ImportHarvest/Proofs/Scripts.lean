import ImportHarvest.Proofs.Imports
import ImportHarvest.Proofs.NotebookShape
/-!
The script of a notebook, cell by cell.

The script is built up from left to right, and a line feed is put in where the text so far ends inside a line. What is
there before a cell's text always ends its line, so the cell adds its own text with its last line ended, and nothing else
(`endLine_append`, `joinCells_eq`). So the script of a notebook is the texts of its cells in document order, each with its
last line ended (`script_of_cells`). Each text starts a line and ends one, so the script imports what its cells do
(`scanImports_endLine_append`, `modules_of_cells`).
-/

namespace ImportHarvest

open Json

/-! ## Lines that are ended -/

/-- a text with its last line ended: as it is when it is empty or ends in a line feed, else with one added -/
def wholeLines (text : String) : String :=
  if text = "" ∨ text.toList.getLast? = some '\n' then text else text ++ "\n"

theorem isOpenLine_append (script : List Char) {text : List Char} (h : text ≠ []) :
    isOpenLine (script ++ text) = isOpenLine text := by
  rw [isOpenLine, isOpenLine, List.getLast?_append_of_ne_nil _ h]

theorem isOpenLine_endLine (script : List Char) : isOpenLine (endLine script) = false := by
  unfold endLine
  split_ifs with h
  · simp [isOpenLine]
  · simpa using h

theorem endLine_of_not_open {script : List Char} (h : isOpenLine script = false) : endLine script = script := by
  rw [endLine, h, if_neg Bool.false_ne_true]

/-- behind a line that is ended, a text is added with its own last line ended -/
theorem endLine_append {script : List Char} (h : isOpenLine script = false) (text : List Char) :
    endLine (script ++ text) = script ++ endLine text := by
  cases text with
  | nil =>
    rw [List.append_nil, endLine_of_not_open h]
    exact (List.append_nil script).symm
  | cons c text =>
    have hopen : isOpenLine (script ++ c :: text) = isOpenLine (c :: text) := isOpenLine_append script (List.cons_ne_nil c text)
    unfold endLine
    rw [hopen]
    split_ifs
    · rw [List.append_assoc]
    · rfl

/-- what the cells so far make, with its last line ended, is followed by the texts of the others -/
theorem endLine_foldl (texts : List (List Char)) (script : List Char) :
    endLine (texts.foldl (fun script text => endLine script ++ text) script) = endLine script ++ texts.flatMap endLine := by
  induction texts generalizing script with
  | nil => simp
  | cons text texts ih =>
    have hstep : endLine (endLine script ++ text) = endLine script ++ endLine text :=
      endLine_append (isOpenLine_endLine script) text
    rw [List.foldl_cons, ih, hstep, List.flatMap_cons, List.append_assoc]

/-- **The script is the texts with their last lines ended** -/
theorem joinCells_eq (texts : List (List Char)) : joinCells texts = texts.flatMap endLine := by
  have hnil : endLine [] = [] := rfl
  rw [joinCells, endLine_foldl, hnil, List.nil_append]

theorem toList_wholeLines (text : String) : (wholeLines text).toList = endLine text.toList := by
  unfold wholeLines endLine
  cases hl : text.toList.getLast? with
  | none =>
    have hempty : text.toList = [] := List.getLast?_eq_none_iff.1 hl
    simp [isOpenLine, String.toList_eq_nil_iff.1 hempty]
  | some c =>
    have hne : text ≠ "" := by
      rintro rfl
      cases hl
    by_cases hc : c = '\n' <;> simp [isOpenLine, hl, hc, hne]

/-! ## Notebooks -/

/-- the cells of a notebook in document order: those at the top, or else those of its worksheets, one after the other -/
inductive Notebook.Shows : Notebook → List Cell → Prop where
  | top {cells : List Cell} {worksheets : Option (List (List Cell))} : Shows ⟨some cells, worksheets⟩ cells
  | worksheets {sheets : List (List Cell)} : Shows ⟨none, some sheets⟩ sheets.flatten

theorem Notebook.allCells?_eq_some_iff {n : Notebook} {cells : List Cell} : n.allCells? = some cells ↔ n.Shows cells := by
  constructor
  · intro h
    obtain ⟨_ | top, _ | sheets⟩ := n
    · cases h
    · cases h
      exact .worksheets
    · cases h
      exact .top
    · cases h
      exact .top
  · intro h
    cases h with
    | top => rfl
    | worksheets => rfl

/-- the script of texts -/
def scriptOfTexts (texts : List String) : String := String.join (texts.map wholeLines)

theorem toList_scriptOfTexts (texts : List String) :
    (scriptOfTexts texts).toList = texts.flatMap fun text => endLine text.toList := by
  rw [scriptOfTexts, String.toList_join, List.flatMap_map]
  simp only [toList_wholeLines]

theorem Cell.text?_eq_or (c : Cell) : c.text? = c.source.or c.input := by
  cases hs : c.source <;> simp [Cell.text?, hs]

/-- a script is empty or ends its last line -/
theorem scriptOfTexts_ends (texts : List String) :
    scriptOfTexts texts = "" ∨ (scriptOfTexts texts).toList.getLast? = some '\n' := by
  have hjoin : (scriptOfTexts texts).toList = joinCells (texts.map String.toList) := by
    rw [toList_scriptOfTexts, joinCells_eq, List.flatMap_map]
  have hended : isOpenLine (scriptOfTexts texts).toList = false := by
    rw [hjoin]
    exact isOpenLine_endLine _
  cases hl : (scriptOfTexts texts).toList.getLast? with
  | none => exact .inl (String.toList_eq_nil_iff.1 (List.getLast?_eq_none_iff.1 hl))
  | some c =>
    right
    simpa [isOpenLine, hl] using hended

/-- a notebook with these cells has the script of their texts -/
theorem Notebook.script_of_shows {n : Notebook} {cells : List Cell} (h : n.Shows cells) :
    n.script = .ok (scriptOfTexts (cells.filterMap fun c => c.source.or c.input)) := by
  have htexts : (cells.filterMap fun c => c.text?.map String.toList) =
      (cells.filterMap fun c => c.source.or c.input).map String.toList := by
    rw [List.map_filterMap]
    simp only [Cell.text?_eq_or]
  rw [Notebook.script, Notebook.allCells?_eq_some_iff.2 h]
  dsimp only
  rw [htexts, joinCells_eq, List.flatMap_map, ← toList_scriptOfTexts, String.ofList_toList]

/-- **A text has a script when it is a notebook with cells** -/
theorem scriptOf_eq_ok_iff {text script : String} :
    scriptOf text = .ok script ↔ ∃ j n cells, Json.ofString? text = some j ∧ IsNotebook j n ∧ n.Shows cells ∧
      script = scriptOfTexts (cells.filterMap fun c => c.source.or c.input) := by
  unfold scriptOf
  constructor
  · intro h
    cases hn : (Json.ofString? text).bind Notebook.ofJson? with
    | none =>
      rw [hn] at h
      cases h
    | some n =>
      rw [hn] at h
      obtain ⟨j, hj, hread⟩ := Option.bind_eq_some_iff.1 hn
      cases hcells : n.allCells? with
      | none =>
        simp only [Notebook.script, hcells] at h
        cases h
      | some cells =>
        have hshows := Notebook.allCells?_eq_some_iff.1 hcells
        dsimp only at h
        rw [Notebook.script_of_shows hshows] at h
        exact ⟨j, n, cells, hj, Notebook.ofJson?_eq_some_iff.1 hread, hshows, (Except.ok.inj h).symm⟩
  · rintro ⟨j, n, cells, hj, hn, hcells, rfl⟩
    rw [hj, Option.bind_some, Notebook.ofJson?_eq_some_iff.2 hn]
    exact Notebook.script_of_shows hcells

/-- **The script of a notebook is that of its cells' texts.** A document has a script exactly when it is a notebook with
cells, at the top or else in worksheets; the script is then the texts of the cells in document order, of each cell its
source or else its input, and each with its last line ended. It is empty or ends in a line feed. -/
theorem script_of_cells (text script : String) :
    (scriptOf text = .ok script ↔ ∃ j n cells, Json.ofString? text = some j ∧ IsNotebook j n ∧ n.Shows cells ∧
      script = String.join ((cells.filterMap fun c => c.source.or c.input).map wholeLines)) ∧
      (scriptOf text = .ok script → script = "" ∨ script.toList.getLast? = some '\n') := by
  refine ⟨scriptOf_eq_ok_iff, fun h => ?_⟩
  obtain ⟨j, n, cells, -, -, -, rfl⟩ := scriptOf_eq_ok_iff.1 h
  exact scriptOfTexts_ends _

/-- two cells: the first ends in a carriage return, the second has its text under the other name and in two pieces -/
def returnDocument : String := "\x7b\"cells\":[\x7b\"source\":\"a\\r\"\x7d,\x7b\"input\":[\"import o\",\"s\"]\x7d]\x7d"

def returnJson : Json :=
  .object [(some "cells", .list [.object [(some "source", .string (some "a\r"))],
    .object [(some "input", .list [.string (some "import o"), .string (some "s")])]])]

def returnCells : List Cell := [⟨some "a\r", none⟩, ⟨none, some "import os"⟩]

theorem returnDocument_json : Json.ofString? returnDocument = some returnJson := by decide +kernel

theorem returnJson_notebook : IsNotebook returnJson ⟨some returnCells, none⟩ :=
  Notebook.ofJson?_eq_some_iff.1 (by decide +kernel)

theorem returnDocument_script :
    scriptOf returnDocument = .ok "a\r\nimport os\n" ∧
      ("a\r\nimport os\n" = "" ∨ "a\r\nimport os\n".toList.getLast? = some '\n') := by
  have hscript : scriptOf returnDocument = .ok "a\r\nimport os\n" :=
    (script_of_cells returnDocument "a\r\nimport os\n").1.2
      ⟨returnJson, ⟨some returnCells, none⟩, returnCells, returnDocument_json, returnJson_notebook, .top, by decide⟩
  exact ⟨hscript, (script_of_cells returnDocument "a\r\nimport os\n").2 hscript⟩

/-! ## Modules -/

/-- a text whose last line is ended imports what it does, whatever follows it -/
theorem scanImports_endLine_append (text rest : List Char) :
    scanImports true (endLine text ++ rest) = scanImports true text ++ scanImports true rest := by
  have hnil : scanImports true [] = [] := by rw [scanImports]
  unfold endLine
  split_ifs with h
  · rw [List.append_assoc, List.singleton_append, scanImports_append]
  · rcases List.eq_nil_or_concat text with rfl | ⟨line, c, rfl⟩
    · rw [List.nil_append, hnil, List.nil_append]
    · -- the text ends in a line feed of its own
      obtain rfl : c = '\n' := by simpa [isOpenLine] using h
      have htext : scanImports true (line ++ ['\n']) = scanImports true line := by
        rw [scanImports_append, hnil, List.append_nil]
      rw [List.concat_eq_append, htext, List.append_assoc, List.singleton_append, scanImports_append]

/-- **A script imports what its texts do**, text by text -/
theorem scanImports_scriptOfTexts (texts : List String) :
    scanImports true (scriptOfTexts texts).toList = texts.flatMap fun text => scanImports true text.toList := by
  rw [toList_scriptOfTexts]
  induction texts with
  | nil => rw [List.flatMap_nil, List.flatMap_nil, scanImports]
  | cons text texts ih => rw [List.flatMap_cons, scanImports_endLine_append, ih, List.flatMap_cons]

/-- **The modules of a notebook are those of its cells.** The script of a notebook with cells imports the names that the
texts of its cells import, in document order and each where it was first seen: each cell is searched as if it stood
alone, whatever the one before it ends with, and no name is found that is in no cell. -/
theorem modules_of_cells (text : String) (j : Json) (n : Notebook) (cells : List Cell)
    (hj : Json.ofString? text = some j) (hn : IsNotebook j n) (hcells : n.Shows cells) :
    ∃ script, scriptOf text = .ok script ∧
      (harvest script).toList =
        ((cells.filterMap fun c => c.source.or c.input).flatMap fun t => (harvest t).toList).eraseDups ∧
      ∀ name, name ∈ (harvest script).toList ↔ ∃ c ∈ cells, ∃ t, c.source.or c.input = some t ∧ name ∈ (harvest t).toList := by
  have hscript := scriptOf_eq_ok_iff.2 ⟨j, n, cells, hj, hn, hcells, rfl⟩
  have hmodules : (harvest (scriptOfTexts (cells.filterMap fun c => c.source.or c.input))).toList =
      ((cells.filterMap fun c => c.source.or c.input).flatMap fun t => (harvest t).toList).eraseDups := by
    rw [toList_harvest, scanImports_scriptOfTexts, List.map_flatMap]
    simp only [toList_harvest]
    exact (eraseDups_flatMap (fun t : String => (scanImports true t.toList).map String.ofList) _).symm
  refine ⟨_, hscript, hmodules, fun name => ?_⟩
  rw [hmodules, List.mem_eraseDups, List.mem_flatMap]
  simp only [List.mem_filterMap]
  constructor
  · rintro ⟨t, ⟨c, hc, ht⟩, hname⟩
    exact ⟨c, hc, t, ht, hname⟩
  · rintro ⟨c, hc, t, ht, hname⟩
    exact ⟨t, ⟨c, hc, ht⟩, hname⟩

theorem returnDocument_modules :
    ∃ script, scriptOf returnDocument = .ok script ∧ (harvest script).toList = ["os"] := by
  obtain ⟨script, hscript, hmodules, -⟩ :=
    modules_of_cells returnDocument returnJson _ returnCells returnDocument_json returnJson_notebook .top
  refine ⟨script, hscript, ?_⟩
  rw [hmodules]
  simp only [toList_harvest, scanImports_eq_lines]
  decide

end ImportHarvest

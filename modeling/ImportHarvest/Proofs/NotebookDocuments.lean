import ImportHarvest.Proofs.JsonValues
import ImportHarvest.Proofs.Run
import ImportHarvest.Proofs.Scripts
import ImportHarvest.Proofs.Utf8
/-!
Which documents are notebooks.

Whether a document has a script is settled by its form alone: it is JSON text, its value is a record of cells and
worksheets, and every cell in it is a record with a kind and texts (`IsNotebookDocument`). The form says nothing of what
the cells are read as, so it is held against the readers by leaving open what they give (`cellForm_iff`,
`sheetForm_iff`, `notebookForm_iff`). A document of any other form is malformed, and a run that meets one counts it and
goes on (`passedOver_of_error`).
-/

namespace ImportHarvest

namespace Json

/-! ## Forms of values -/

/-- a field is not given, or null, or has this form -/
def IfGiven (form : Json → Prop) (given : Option Json) : Prop := ∀ j ∈ given, j = .null ∨ form j

/-- a list of values of this form -/
def ListOf (form : Json → Prop) (j : Json) : Prop := ∃ items, j = .list items ∧ ∀ item ∈ items, form item

/-- a string in which no escape leaves a surrogate unpaired -/
def HasText (j : Json) : Prop := ∃ text, j = .string (some text)

section

variable {α : Type} {R : Json → α → Prop} {form : Json → Prop}

/-- what is read item by item is of the form that each item has -/
theorem exists_forall₂_iff (h : ∀ j, (∃ a, R j a) ↔ form j) {items : List Json} :
    (∃ as, List.Forall₂ R items as) ↔ ∀ item ∈ items, form item := by
  induction items with
  | nil => exact ⟨fun _ => nofun, fun _ => ⟨[], .nil⟩⟩
  | cons j items ih =>
    rw [List.forall_mem_cons, ← h, ← ih]
    constructor
    · rintro ⟨_, hall⟩
      cases hall with
      | cons hj hitems => exact ⟨⟨_, hj⟩, ⟨_, hitems⟩⟩
    · rintro ⟨⟨a, hj⟩, as, hitems⟩
      exact ⟨a :: as, .cons hj hitems⟩

theorem listOf_iff (h : ∀ j, (∃ a, R j a) ↔ form j) {j : Json} : (∃ as, IsList R j as) ↔ ListOf form j := by
  constructor
  · rintro ⟨as, items, rfl, hitems⟩
    exact ⟨items, rfl, (exists_forall₂_iff h).1 ⟨as, hitems⟩⟩
  · rintro ⟨items, rfl, hitems⟩
    obtain ⟨as, has⟩ := (exists_forall₂_iff h).2 hitems
    exact ⟨as, items, rfl, has⟩

theorem ifGiven_iff (h : ∀ j, (∃ a, R j a) ↔ form j) {given : Option Json} :
    (∃ value, Optionally R given value) ↔ IfGiven form given := by
  constructor
  · rintro ⟨value, hgiven⟩ j hj
    cases hgiven with
    | absent => cases hj
    | null => exact .inl (Option.some.inj hj).symm
    | value hread =>
      cases hj
      exact .inr ((h _).1 ⟨_, hread⟩)
  · intro hgiven
    cases given with
    | none => exact ⟨none, .absent⟩
    | some j =>
      rcases hgiven j rfl with rfl | hj
      · exact ⟨none, .null⟩
      · obtain ⟨a, ha⟩ := (h j).2 hj
        exact ⟨some a, .value ha⟩

/-- what an optional field comes to is there when the field is given and is not null -/
theorem Optionally.isSome_iff (hnull : ∀ a, ¬ R .null a) {given : Option Json} {value : Option α}
    (h : Optionally R given value) : value.isSome = true ↔ ∃ j ∈ given, j ≠ .null := by
  cases h with
  | absent => simp
  | null => simp
  | @value j a hj =>
    have hne : j ≠ .null := by
      rintro rfl
      exact hnull a hj
    simp [hne]

end

theorem not_isList_null {α : Type} {R : Json → α → Prop} (as : List α) : ¬ IsList R .null as := by
  rintro ⟨items, hitems, -⟩
  cases hitems

end Json

open Json Text

/-! ## Notebooks by their form -/

/-- a string, or a list of strings -/
def TextForm (j : Json) : Prop := HasText j ∨ ListOf HasText j

/-- a cell: its kind is a string if it is given at all, and its two texts are strings or lists of strings, or null -/
structure CellForm (j : Json) : Prop where
  record : IsRecord Cell.names j
  kind : ∀ value ∈ field? Cell.names "cell_type" j, HasText value
  source : IfGiven TextForm (field? Cell.names "source" j)
  input : IfGiven TextForm (field? Cell.names "input" j)

/-- a worksheet: a list of cells if they are given at all -/
structure SheetForm (j : Json) : Prop where
  record : IsRecord Notebook.worksheetNames j
  cells : ∀ value ∈ field? Notebook.worksheetNames "cells" j, ListOf CellForm value

/-- a notebook: a list of cells or a list of worksheets, or both; one of them may be null -/
structure NotebookForm (j : Json) : Prop where
  record : IsRecord Notebook.names j
  cells : IfGiven (ListOf CellForm) (field? Notebook.names "cells" j)
  worksheets : IfGiven (ListOf SheetForm) (field? Notebook.names "worksheets" j)
  held : (∃ value ∈ field? Notebook.names "cells" j, value ≠ .null) ∨
    ∃ value ∈ field? Notebook.names "worksheets" j, value ≠ .null

/-- a text is one JSON document, and its value has the form of a notebook -/
def IsNotebookDocument (text : String) : Prop := ∃ j, Writes text.toList j ∧ NotebookForm j

theorem listOf_hasText_iff {j : Json} :
    ListOf HasText j ↔ ∃ lines : List String, j = .list (lines.map fun line => .string (some line)) := by
  constructor
  · rintro ⟨items, rfl, hitems⟩
    induction items with
    | nil => exact ⟨[], rfl⟩
    | cons item items ih =>
      obtain ⟨⟨line, rfl⟩, hrest⟩ := List.forall_mem_cons.1 hitems
      obtain ⟨lines, hlines⟩ := ih hrest
      refine ⟨line :: lines, ?_⟩
      rw [List.map_cons, ← Json.list.inj hlines]
  · rintro ⟨lines, rfl⟩
    refine ⟨_, rfl, fun item hitem => ?_⟩
    obtain ⟨line, -, rfl⟩ := List.mem_map.1 hitem
    exact ⟨line, rfl⟩

theorem textForm_iff (j : Json) : (∃ text, IsText j text) ↔ TextForm j := by
  constructor
  · rintro ⟨text, htext⟩
    cases htext with
    | string => exact .inl ⟨text, rfl⟩
    | lines lines => exact .inr (listOf_hasText_iff.2 ⟨lines, rfl⟩)
  · rintro (⟨text, rfl⟩ | hlines)
    · exact ⟨text, .string text⟩
    · obtain ⟨lines, rfl⟩ := listOf_hasText_iff.1 hlines
      exact ⟨String.join lines, .lines lines⟩

/-- **What is a cell is so by its form** -/
theorem cellForm_iff (j : Json) : (∃ c, IsCell j c) ↔ CellForm j := by
  constructor
  · rintro ⟨c, hrecord, hkind, hsource, hinput⟩
    exact ⟨hrecord, hkind, (ifGiven_iff textForm_iff).1 ⟨c.source, hsource⟩, (ifGiven_iff textForm_iff).1 ⟨c.input, hinput⟩⟩
  · rintro ⟨hrecord, hkind, hsource, hinput⟩
    obtain ⟨source, hsource⟩ := (ifGiven_iff textForm_iff).2 hsource
    obtain ⟨input, hinput⟩ := (ifGiven_iff textForm_iff).2 hinput
    exact ⟨⟨source, input⟩, hrecord, hkind, hsource, hinput⟩

/-- **What is a worksheet is so by its form** -/
theorem sheetForm_iff (j : Json) : (∃ cells, IsWorksheet j cells) ↔ SheetForm j := by
  constructor
  · rintro ⟨cells, hrecord, -, hgiven⟩
    exact ⟨hrecord, fun value hvalue => (listOf_iff cellForm_iff).1 ⟨cells, hgiven value hvalue⟩⟩
  · rintro ⟨hrecord, hgiven⟩
    cases hcells : field? Notebook.worksheetNames "cells" j with
    | none =>
      refine ⟨[], hrecord, fun _ => rfl, ?_⟩
      rw [hcells]
      exact nofun
    | some value =>
      obtain ⟨cells, hlist⟩ := (listOf_iff cellForm_iff).2 (hgiven value hcells)
      refine ⟨cells, hrecord, ?_, ?_⟩
      · rw [hcells]
        exact nofun
      · rw [hcells]
        rintro _ ⟨⟩
        exact hlist

/-- **What is a notebook with cells is so by its form** -/
theorem notebookForm_iff (j : Json) : (∃ n cells, IsNotebook j n ∧ n.Shows cells) ↔ NotebookForm j := by
  have hshown (n : Notebook) : (∃ cells, n.Shows cells) ↔ n.cells.isSome = true ∨ n.worksheets.isSome = true := by
    constructor
    · rintro ⟨_, hcells⟩
      cases hcells with
      | top => exact .inl rfl
      | worksheets => exact .inr rfl
    · obtain ⟨_ | cells, _ | sheets⟩ := n
      · simp
      · exact fun _ => ⟨_, .worksheets⟩
      · exact fun _ => ⟨_, .top⟩
      · exact fun _ => ⟨_, .top⟩
  constructor
  · rintro ⟨n, cells, ⟨hrecord, hcells, hsheets⟩, hshows⟩
    refine ⟨hrecord, (ifGiven_iff fun _ => listOf_iff cellForm_iff).1 ⟨_, hcells⟩,
      (ifGiven_iff fun _ => listOf_iff sheetForm_iff).1 ⟨_, hsheets⟩, ?_⟩
    rw [← hcells.isSome_iff not_isList_null, ← hsheets.isSome_iff not_isList_null]
    exact (hshown n).1 ⟨cells, hshows⟩
  · rintro ⟨hrecord, hcells, hsheets, hheld⟩
    obtain ⟨cells, hcells⟩ := (ifGiven_iff fun _ => listOf_iff cellForm_iff).2 hcells
    obtain ⟨sheets, hsheets⟩ := (ifGiven_iff fun _ => listOf_iff sheetForm_iff).2 hsheets
    rw [← hcells.isSome_iff not_isList_null, ← hsheets.isSome_iff not_isList_null] at hheld
    obtain ⟨shown, hshows⟩ := (hshown ⟨cells, sheets⟩).2 hheld
    exact ⟨⟨cells, sheets⟩, shown, ⟨hrecord, hcells, hsheets⟩, hshows⟩

theorem exists_script_iff {text : String} : (∃ script, scriptOf text = .ok script) ↔ IsNotebookDocument text := by
  simp only [scriptOf_eq_ok_iff]
  constructor
  · rintro ⟨script, j, n, cells, hj, hn, hcells, -⟩
    exact ⟨j, parse?_eq_some_iff.1 hj, (notebookForm_iff j).1 ⟨n, cells, hn, hcells⟩⟩
  · rintro ⟨j, hwrites, hform⟩
    obtain ⟨n, cells, hn, hcells⟩ := (notebookForm_iff j).2 hform
    exact ⟨_, j, n, cells, parse?_of_writes hwrites, hn, hcells, rfl⟩

/-! ## Runs that meet other documents -/

/-- a notebook with this text is passed over: a run over any source, with any filter and output, that asks for the next
record and is given a file by the name of a notebook that the filter wants, and then its content, counts it as malformed
and goes on, with the output as it was -/
def PassedOver (text : String) : Prop :=
  ∀ {τ : Type} [Sink τ] {source : TreeSource τ} (filter : Filter) (r : Record) (content : Octets)
    (before asked read : Progress source), filter.wants r = true → ".ipynb".toList <:+ r.name.toList →
      decode content = text → before.next = (some (.ok r), asked) → asked.read r = (.ok content, read) →
        before.step filter = (none, { read with stats := read.stats.skipMalformed }) ∧
          read.world.output = before.world.output

section

variable {τ : Type} {source : TreeSource τ}

/-- asking for a record leaves the output as it is, and so does reading a file -/
theorem Progress.next_output (p : Progress source) : p.next.2.world.output = p.world.output := rfl

theorem Progress.read_output (r : Record) (p : Progress source) : (p.read r).2.world.output = p.world.output := rfl

end

theorem passedOver_of_error {text : String} {e : NotebookError} (h : scriptOf text = .error e) : PassedOver text := by
  intro τ _ source filter r content before asked read hwants hname htext hnext hread
  have hbody : bodyOf r content = none := by
    rw [bodyOf, if_pos (show r.isNotebook = true from endsWith_iff.2 hname), htext, h]
    rfl
  constructor
  · rw [Progress.step, hnext]
    dsimp only
    rw [Progress.takeRecord_of_wanted hwants, Progress.takeFile, hread]
    dsimp only
    rw [Progress.store, hbody]
    rfl
  · have hasked : asked.world.output = before.world.output := by rw [← Progress.next_output before, hnext]
    rw [← hasked, ← Progress.read_output r asked, hread]

/-- **A document has a script exactly when it has the form of a notebook.** It is one JSON document whose value is a
record of cells and worksheets, as an object or as a list by place, and so is every cell and worksheet in it; anything may
stand under other names. Any other document is malformed, which concerns this file alone: a run passes it over. -/
theorem script_iff_notebook_document (text : String) :
    ((∃ script, scriptOf text = .ok script) ↔ IsNotebookDocument text) ∧
      (¬ IsNotebookDocument text →
        (∃ e, scriptOf text = .error e ∧ e.failure = .malformed e.message ∧ e.failure.isFileScoped = true) ∧
          PassedOver text) := by
  refine ⟨exists_script_iff, fun hform => ?_⟩
  cases hscript : scriptOf text with
  | ok script => exact absurd (exists_script_iff.1 ⟨script, hscript⟩) hform
  | error e => exact ⟨⟨e, rfl, rfl, rfl⟩, passedOver_of_error hscript⟩

/-! A cell whose text ends in half a surrogate pair, in a notebook of its own. -/

def halfDocument : String := "\x7b\"cells\":[\x7b\"source\":\"import os\\ud800\"\x7d]\x7d"

def halfRecord : Record := ⟨"half.ipynb", "half.ipynb", "half.ipynb", false, .path "half.ipynb"⟩

def halfTree : TreeSource LimitedSink :=
  .ofItems "half" (fun _ => [.ok halfRecord]) fun _ _ => .ok (utf8Of halfDocument)

theorem halfDocument_malformed : scriptOf halfDocument = .error .notANotebook := by decide +kernel

/-- the run over it has asked for its one record, has read it, and goes on -/
theorem halfDocument_passed_over :
    ¬ IsNotebookDocument halfDocument ∧ (∃ e, scriptOf halfDocument = .error e ∧ e.failure.isFileScoped = true) ∧
      ∃ after, (Progress.start halfTree ⟨.unlimited, [], []⟩).step ⟨[".ipynb"], []⟩ = (none, after) ∧
        after.stats.filesSkippedMalformed = 1 ∧ after.world.output.held = [] := by
  have hform : ¬ IsNotebookDocument halfDocument := by
    intro h
    obtain ⟨script, hscript⟩ := exists_script_iff.2 h
    rw [halfDocument_malformed] at hscript
    cases hscript
  obtain ⟨⟨e, he, -, hscoped⟩, hpassed⟩ := (script_iff_notebook_document halfDocument).2 hform
  have hdecode : decode (utf8Of halfDocument) = halfDocument := decode_utf8Of (by decide)
  obtain ⟨hstep, hout⟩ := @hpassed _ _ halfTree ⟨[".ipynb"], []⟩ halfRecord (utf8Of halfDocument)
    (.start halfTree ⟨.unlimited, [], []⟩) _ _ (by decide) (by decide) hdecode rfl rfl
  exact ⟨hform, ⟨e, he, hscoped⟩, _, hstep, rfl, congrArg LimitedSink.held hout⟩

/-- the records may be lists: one worksheet by its place, its cells by theirs, and a cell with its kind and its text -/
example : IsNotebookDocument "[null,[[[[\"code\",\"import os\"]]]]]" :=
  exists_script_iff.1 ⟨"import os\n", by decide +kernel⟩

end ImportHarvest

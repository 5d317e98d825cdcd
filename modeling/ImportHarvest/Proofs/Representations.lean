import ImportHarvest.Proofs.JsonValues
import ImportHarvest.Proofs.Scripts
/-!
The documents that hold the same texts.

A list of texts has many documents: the cells stand at the top or in worksheets, a text under one of two names and in one
or more pieces, and around them any other members, in any order and in any spelling (`Represents`). What an object has
under its names does not depend on the order of its members or on the others (`HasFields.field?_eq`), so each of these
documents is a notebook whose cells have the texts (`exists_notebook`), and all of them have one script
(`script_of_representation`).
-/

namespace ImportHarvest

namespace Json

/-! ## Objects with some fields -/

/-- the members that give these fields, where they are given -/
def givenMembers (fields : List (String × Option Json)) : List (Option String × Json) :=
  fields.filterMap fun f => f.2.map fun value => (some f.1, value)

/-- an object has these fields: its members, in any order, are those that give them, and any others under other names -/
def HasFields (fields : List (String × Option Json)) (j : Json) : Prop :=
  ∃ members others, j = .object members ∧ members.Perm (givenMembers fields ++ others) ∧
    ∀ m ∈ others, ∃ name, m.1 = some name ∧ name ∉ fields.map fun f => f.1

section

variable {fields : List (String × Option Json)} {names : List String} {j : Json}

theorem mem_givenMembers {m : Option String × Json} :
    m ∈ givenMembers fields ↔ ∃ f ∈ fields, f.2 = some m.2 ∧ m.1 = some f.1 := by
  unfold givenMembers
  rw [List.mem_filterMap]
  constructor
  · rintro ⟨f, hf, hm⟩
    obtain ⟨value, hvalue, rfl⟩ := Option.map_eq_some_iff.1 hm
    exact ⟨f, hf, hvalue, rfl⟩
  · rintro ⟨f, hf, hvalue, hname⟩
    refine ⟨f, hf, ?_⟩
    rw [hvalue, Option.map_some, ← hname]

/-- each given field gives its name once -/
theorem givenMembers_names_sublist (fields : List (String × Option Json)) :
    ((givenMembers fields).filterMap Prod.fst).Sublist (fields.map fun f => f.1) := by
  induction fields with
  | nil => exact List.Sublist.slnil
  | cons f fields ih =>
    obtain ⟨name, _ | value⟩ := f
    · exact ih.cons name
    · exact ih.cons_cons name

/-- other members give no known name -/
theorem knownNames_others {others : List (Option String × Json)}
    (h : ∀ m ∈ others, ∃ name, m.1 = some name ∧ name ∉ names) : knownNames names others = [] := by
  rw [knownNames, List.filter_eq_nil_iff]
  intro name hname
  obtain ⟨m, hm, heq⟩ := List.mem_filterMap.1 hname
  obtain ⟨other, hother, hnot⟩ := h m hm
  obtain rfl : name = other := Option.some.inj (heq.symm.trans hother)
  simpa using hnot

/-- an object with some fields is a record of them -/
theorem HasFields.isRecord (h : HasFields fields j) (hd : (fields.map fun f => f.1).Nodup) :
    IsRecord (fields.map fun f => f.1) j := by
  obtain ⟨members, others, rfl, hperm, hothers⟩ := h
  apply IsRecord.object
  · intro m hm
    rcases List.mem_append.1 (hperm.mem_iff.1 hm) with hm | hm
    · obtain ⟨f, -, -, hname⟩ := mem_givenMembers.1 hm
      rw [hname]
      exact nofun
    · obtain ⟨name, hname, -⟩ := hothers m hm
      rw [hname]
      exact nofun
  · have hnames : (knownNames (fields.map fun f => f.1) members).Perm
        (knownNames (fields.map fun f => f.1) (givenMembers fields ++ others)) := (hperm.filterMap _).filter _
    rw [hnames.nodup_iff, knownNames, List.filterMap_append, List.filter_append, ← knownNames, ← knownNames,
      knownNames_others hothers, List.append_nil]
    exact (List.filter_sublist.trans (givenMembers_names_sublist fields)).nodup hd

/-- what is found under a key, when one value at most has it -/
theorem lookup_eq_of_mem_iff {α β : Type} [BEq α] [LawfulBEq α] {entries : List (α × β)} {key : α} {value : Option β}
    (h : ∀ v, (key, v) ∈ entries ↔ value = some v) : entries.lookup key = value := by
  cases hl : entries.lookup key with
  | none =>
    cases value with
    | none => rfl
    | some v => simpa using List.lookup_eq_none_iff.1 hl (key, v) ((h v).2 rfl)
  | some v =>
    obtain ⟨before, after, rfl, -⟩ := List.lookup_eq_some_iff.1 hl
    exact ((h v).1 (by simp)).symm

/-- an object with some fields gives each of them as it is -/
theorem HasFields.field?_eq (h : HasFields fields j) (hd : (fields.map fun f => f.1).Nodup) {name : String}
    {value : Option Json} (hf : (name, value) ∈ fields) : field? names name j = value := by
  obtain ⟨members, others, rfl, hperm, hothers⟩ := h
  show members.lookup (some name) = value
  apply lookup_eq_of_mem_iff
  intro v
  rw [hperm.mem_iff, List.mem_append, mem_givenMembers]
  constructor
  · rintro (⟨f, hfields, hv, hname⟩ | hm)
    · have hsame : (name, value) = f := List.inj_on_of_nodup_map hd hf hfields (Option.some.inj hname)
      rw [← hsame] at hv
      exact hv
    · obtain ⟨other, hother, hnot⟩ := hothers _ hm
      obtain rfl : name = other := Option.some.inj hother
      exact absurd (List.mem_map_of_mem hf) hnot
  · intro hv
    exact .inl ⟨(name, value), hf, hv, rfl⟩

end

end Json

open Json

/-! ## Cells, worksheets and notebooks -/

/-- the two fields for text hold this one: the first does, and the other has some text or none, or the first is absent or
null and the other does -/
inductive HoldText (text : String) : Option Json → Option Json → Prop where
  | source {j : Json} {input : Option Json} {other : Option String} :
    IsText j text → Optionally IsText input other → HoldText text (some j) input
  | input {source : Option Json} {j : Json} :
    source = none ∨ source = some .null → IsText j text → HoldText text source (some j)

/-- a cell of this text: its kind is a text if it is given -/
def CellOf (text : String) (j : Json) : Prop :=
  ∃ kind source input, HasFields [("cell_type", kind), ("source", source), ("input", input)] j ∧
    (∀ value ∈ kind, ∃ name, value = .string (some name)) ∧ HoldText text source input

/-- a worksheet with cells of these texts; when there are none, the list may be absent -/
inductive SheetOf : List String → Json → Prop where
  | absent {j : Json} : HasFields [("cells", none)] j → SheetOf [] j
  | cells {texts : List String} {items : List Json} {j : Json} :
    HasFields [("cells", some (.list items))] j → List.Forall₂ CellOf texts items → SheetOf texts j

/-- a notebook with cells of these texts: at the top, whatever worksheets there are, or else in worksheets, as many in
each as may be -/
inductive NotebookOf (texts : List String) : Json → Prop where
  | top {items : List Json} {worksheets : Option Json} {sheets : Option (List (List Cell))} {j : Json} :
    HasFields [("cells", some (.list items)), ("worksheets", worksheets)] j → List.Forall₂ CellOf texts items →
      Optionally (IsList IsWorksheet) worksheets sheets → NotebookOf texts j
  | worksheets {cells : Option Json} {items : List Json} {parts : List (List String)} {j : Json} :
    HasFields [("cells", cells), ("worksheets", some (.list items))] j → cells = none ∨ cells = some .null →
      List.Forall₂ SheetOf parts items → parts.flatten = texts → NotebookOf texts j

/-- a document holds these texts in cells, in whatever form -/
def Represents (texts : List String) (document : String) : Prop :=
  ∃ j, Writes document.toList j ∧ NotebookOf texts j

/-! ## One script -/

/-- the texts of the cells that have one -/
def textsOf (cells : List Cell) : List String := cells.filterMap fun c => c.source.or c.input

theorem optionally_of_blank {α : Type} {R : Json → α → Prop} {given : Option Json}
    (h : given = none ∨ given = some .null) : Optionally R given none := by
  rcases h with rfl | rfl
  · exact .absent
  · exact .null

/-- a value that holds a text is a cell with this text -/
theorem exists_cell {text : String} {j : Json} (h : CellOf text j) : ∃ c, IsCell j c ∧ textsOf [c] = [text] := by
  obtain ⟨kind, source, input, hfields, hkind, htext⟩ := h
  have hd : ["cell_type", "source", "input"].Nodup := by decide
  have hrecord : IsRecord Cell.names j := hfields.isRecord hd
  have hk : field? Cell.names "cell_type" j = kind := hfields.field?_eq hd (by simp)
  have hs : field? Cell.names "source" j = source := hfields.field?_eq hd (by simp)
  have hi : field? Cell.names "input" j = input := hfields.field?_eq hd (by simp)
  have hcell : ∀ {c : Cell}, Optionally IsText source c.source → Optionally IsText input c.input → IsCell j c := by
    intro c hsource hinput
    rw [← hk] at hkind
    rw [← hs] at hsource
    rw [← hi] at hinput
    exact ⟨hrecord, hkind, hsource, hinput⟩
  cases htext with
  | @source js input other hjs hother => exact ⟨⟨some text, other⟩, hcell (.value hjs) hother, rfl⟩
  | @input source ji hblank hji => exact ⟨⟨none, some text⟩, hcell (optionally_of_blank hblank) (.value hji), rfl⟩

theorem textsOf_append (cells more : List Cell) : textsOf (cells ++ more) = textsOf cells ++ textsOf more :=
  List.filterMap_append

/-- values that hold texts are cells with these texts -/
theorem exists_cells {texts : List String} {items : List Json} (h : List.Forall₂ CellOf texts items) :
    ∃ cells, List.Forall₂ IsCell items cells ∧ textsOf cells = texts := by
  induction h with
  | nil => exact ⟨[], .nil, rfl⟩
  | @cons text j texts items hj _ ih =>
    obtain ⟨c, hc, htext⟩ := exists_cell hj
    obtain ⟨cells, hcells, htexts⟩ := ih
    refine ⟨c :: cells, .cons hc hcells, ?_⟩
    calc textsOf (c :: cells) = textsOf [c] ++ textsOf cells := textsOf_append [c] cells
      _ = text :: texts := by rw [htext, htexts, List.singleton_append]

theorem exists_worksheet {texts : List String} {j : Json} (h : SheetOf texts j) :
    ∃ cells, IsWorksheet j cells ∧ textsOf cells = texts := by
  have hd : ["cells"].Nodup := by decide
  cases h with
  | absent hfields =>
    have hrecord : IsRecord Notebook.worksheetNames j := hfields.isRecord hd
    have hc : field? Notebook.worksheetNames "cells" j = none := hfields.field?_eq hd (by simp)
    refine ⟨[], ⟨hrecord, fun _ => rfl, ?_⟩, rfl⟩
    rw [hc]
    exact nofun
  | @cells texts items j hfields hitems =>
    have hrecord : IsRecord Notebook.worksheetNames j := hfields.isRecord hd
    have hc : field? Notebook.worksheetNames "cells" j = some (.list items) := hfields.field?_eq hd (by simp)
    obtain ⟨cells, hcells, htexts⟩ := exists_cells hitems
    refine ⟨cells, ⟨hrecord, ?_, ?_⟩, htexts⟩
    · rw [hc]
      exact nofun
    · rw [hc]
      rintro value hvalue
      obtain rfl := Option.some.inj hvalue
      exact ⟨items, rfl, hcells⟩

theorem exists_worksheets {parts : List (List String)} {items : List Json} (h : List.Forall₂ SheetOf parts items) :
    ∃ sheets, List.Forall₂ IsWorksheet items sheets ∧ textsOf sheets.flatten = parts.flatten := by
  induction h with
  | nil => exact ⟨[], .nil, rfl⟩
  | @cons texts j parts items hj _ ih =>
    obtain ⟨cells, hcells, htexts⟩ := exists_worksheet hj
    obtain ⟨sheets, hsheets, hparts⟩ := ih
    refine ⟨cells :: sheets, .cons hcells hsheets, ?_⟩
    rw [List.flatten_cons, textsOf_append, htexts, hparts, List.flatten_cons]

/-- **What holds texts is a notebook that shows cells with these texts** -/
theorem exists_notebook {texts : List String} {j : Json} (h : NotebookOf texts j) :
    ∃ n cells, IsNotebook j n ∧ n.Shows cells ∧ textsOf cells = texts := by
  have hd : ["cells", "worksheets"].Nodup := by decide
  cases h with
  | @top items worksheets sheets j hfields hitems hsheets =>
    have hrecord : IsRecord Notebook.names j := hfields.isRecord hd
    have hc : field? Notebook.names "cells" j = some (.list items) := hfields.field?_eq hd (by simp)
    have hw : field? Notebook.names "worksheets" j = worksheets := hfields.field?_eq hd (by simp)
    obtain ⟨cells, hcells, htexts⟩ := exists_cells hitems
    refine ⟨⟨some cells, sheets⟩, cells, ⟨hrecord, ?_, ?_⟩, .top, htexts⟩
    · rw [hc]
      exact .value ⟨items, rfl, hcells⟩
    · rw [hw]
      exact hsheets
  | @worksheets cells items parts j hfields hblank hparts htexts =>
    have hrecord : IsRecord Notebook.names j := hfields.isRecord hd
    have hc : field? Notebook.names "cells" j = cells := hfields.field?_eq hd (by simp)
    have hw : field? Notebook.names "worksheets" j = some (.list items) := hfields.field?_eq hd (by simp)
    obtain ⟨sheets, hsheets, hflat⟩ := exists_worksheets hparts
    refine ⟨⟨none, some sheets⟩, sheets.flatten, ⟨hrecord, ?_, ?_⟩, .worksheets, hflat.trans htexts⟩
    · rw [hc]
      exact optionally_of_blank hblank
    · rw [hw]
      exact .value ⟨items, rfl, hsheets⟩

/-- a document that holds texts has the script of these texts -/
theorem scriptOf_of_represents {texts : List String} {document : String} (h : Represents texts document) :
    scriptOf document = .ok (scriptOfTexts texts) := by
  obtain ⟨j, hwrites, hj⟩ := h
  obtain ⟨n, cells, hn, hshows, rfl⟩ := exists_notebook hj
  exact scriptOf_eq_ok_iff.2 ⟨j, n, cells, parse?_of_writes hwrites, hn, hshows, rfl⟩

/-- **The script of a notebook does not depend on how the document writes it.** All documents that hold the same texts in
cells have the same script, which is that of the texts, each with its last line ended: whether the cells stand at the top
or in worksheets, under which name and in how many pieces each text stands, in which spelling and with what else around
it. -/
theorem script_of_representation (texts : List String) (document document' : String) (h : Represents texts document)
    (h' : Represents texts document') :
    scriptOf document = scriptOf document' ∧ scriptOf document = .ok (String.join (texts.map wholeLines)) := by
  have hscript : scriptOf document = .ok (scriptOfTexts texts) := scriptOf_of_represents h
  have hscript' : scriptOf document' = .ok (scriptOfTexts texts) := scriptOf_of_represents h'
  exact ⟨hscript.trans hscript'.symm, hscript⟩

/-- two texts at the top, the second in two pieces -/
def flatDocument : String :=
  "\x7b\"cells\":[\x7b\"source\":\"a\\n\"\x7d,\x7b\"source\":[\"b\",\"\"]\x7d]\x7d"

def flatJson : Json :=
  .object [(some "cells", .list [.object [(some "source", .string (some "a\n"))],
    .object [(some "source", .list [.string (some "b"), .string (some "")])]])]

/-- the same texts in the second of two worksheets, the first by an escape and under the other name, behind a null -/
def sheetDocument : String :=
  "\x7b\"worksheets\": [\x7b\x7d, \x7b\"cells\": [\x7b\"input\": [\"\\u0061\", \"\\n\"], \"source\": null\x7d, \x7b\"id\": 1, \"source\": \"b\"\x7d]\x7d]\x7d"

def sheetJson : Json :=
  .object [(some "worksheets", .list [.object [], .object [(some "cells", .list [
    .object [(some "input", .list [.string (some "a"), .string (some "\n")]), (some "source", .null)],
    .object [(some "id", .number ⟨false, ['1'], none, none⟩), (some "source", .string (some "b"))]])]])]

theorem flatDocument_json : Json.ofString? flatDocument = some flatJson := by decide +kernel

theorem sheetDocument_json : Json.ofString? sheetDocument = some sheetJson := by decide +kernel

theorem flatDocument_represents : Represents ["a\n", "b"] flatDocument := by
  have hfirst : CellOf "a\n" (.object [(some "source", .string (some "a\n"))]) :=
    ⟨none, _, none, ⟨_, [], rfl, .refl _, nofun⟩, nofun, .source (.string "a\n") .absent⟩
  have hsecond : CellOf "b" (.object [(some "source", .list [.string (some "b"), .string (some "")])]) :=
    ⟨none, _, none, ⟨_, [], rfl, .refl _, nofun⟩, nofun, .source (.lines ["b", ""]) .absent⟩
  refine ⟨flatJson, parse?_eq_some_iff.1 flatDocument_json, ?_⟩
  exact .top ⟨_, [], rfl, .refl _, nofun⟩ (.cons hfirst (.cons hsecond .nil)) .absent

theorem sheetDocument_represents : Represents ["a\n", "b"] sheetDocument := by
  have hfirst : CellOf "a\n" (.object [(some "input", .list [.string (some "a"), .string (some "\n")]),
      (some "source", .null)]) :=
    ⟨none, some .null, _, ⟨_, [], rfl, .swap .., nofun⟩, nofun, .input (.inr rfl) (.lines ["a", "\n"])⟩
  have hsecond : CellOf "b" (.object [(some "id", .number ⟨false, ['1'], none, none⟩),
      (some "source", .string (some "b"))]) := by
    refine ⟨none, _, none, ⟨_, [(some "id", .number ⟨false, ['1'], none, none⟩)], rfl, .swap .., ?_⟩, nofun,
      .source (.string "b") .absent⟩
    intro m hm
    obtain rfl := List.mem_singleton.1 hm
    exact ⟨"id", rfl, by decide⟩
  refine ⟨sheetJson, parse?_eq_some_iff.1 sheetDocument_json, ?_⟩
  have hempty : SheetOf [] (.object []) := .absent ⟨[], [], rfl, .refl _, nofun⟩
  have hcells : SheetOf ["a\n", "b"] _ :=
    .cells ⟨_, [], rfl, .refl _, nofun⟩ (.cons hfirst (.cons hsecond .nil))
  exact .worksheets ⟨_, [], rfl, .refl _, nofun⟩ (.inl rfl) (.cons hempty (.cons hcells .nil)) rfl

theorem flat_and_sheet_documents_agree :
    Represents ["a\n", "b"] flatDocument ∧ Represents ["a\n", "b"] sheetDocument ∧
      scriptOf flatDocument = scriptOf sheetDocument ∧ scriptOf flatDocument = .ok "a\nb\n" := by
  obtain ⟨hsame, hscript⟩ := script_of_representation ["a\n", "b"] flatDocument sheetDocument flatDocument_represents
    sheetDocument_represents
  refine ⟨flatDocument_represents, sheetDocument_represents, hsame, hscript.trans ?_⟩
  decide

end ImportHarvest

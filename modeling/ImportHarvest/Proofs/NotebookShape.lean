import ImportHarvest.Notebook
import ImportHarvest.Proofs.Fields
import Mathlib.Data.List.Forall2
import Mathlib.Data.List.Nodup
import Mathlib.Tactic.SplitIfs
/-!
What a notebook looks like.

A record gives its fields by name in an object, where other names are passed over, or by place in a list. What is a
record, and what it gives for each field, is said of the value alone (`IsRecord`, `field?`), and so is what is a text, a
cell, a worksheet and a notebook. The readers take exactly these values (`record?_eq_some_iff`, `ofJson?_eq_some_iff`).
-/

namespace ImportHarvest

/-! ## Records -/

namespace Json

/-- the known names that the members of an object give, each as often as they do -/
def knownNames (names : List String) (members : List (Option String × Json)) : List String :=
  (members.filterMap Prod.fst).filter (· ∈ names)

/-- a record of the fields with these names: an object in which every name is a text and no known name stands twice, or a
list of no more values than there are fields -/
inductive IsRecord (names : List String) : Json → Prop where
  | object {members : List (Option String × Json)} :
    (∀ m ∈ members, m.1 ≠ none) → (knownNames names members).Nodup → IsRecord names (.object members)
  | list {items : List Json} : items.length ≤ names.length → IsRecord names (.list items)

/-- what a record gives for a field: the value by its name in an object, the value at its place in a list -/
def field? (names : List String) (name : String) : Json → Option Json
  | .object members => members.lookup (some name)
  | .list items => items[names.idxOf name]?
  | _ => none

section

variable {names : List String}

/-- the fields that are given by one name each -/
def single (names : List String) : Fields := names.map fun name => [name]

theorem find?_single (name : String) :
    (single names).find? name = if name ∈ names then some (names.idxOf name) else none := by
  have hfind : (single names).find? name = names.findIdx? (· == name) := by
    rw [Fields.find?, single, List.findIdx?_map]
    congr 1
    funext x
    show [x].contains name = (x == name)
    rw [Bool.eq_iff_iff, List.contains_iff_mem, List.mem_singleton, beq_iff_eq]
    exact eq_comm
  rw [hfind]
  by_cases h : name ∈ names
  · rw [if_pos h]
    exact List.findIdx?_eq_some_of_exists ⟨name, h, beq_self_eq_true name⟩
  · rw [if_neg h, List.findIdx?_eq_none_iff]
    intro x hx
    exact beq_false_of_ne (ne_of_mem_of_not_mem hx h)

/-- the names that are given, each as the place of its field -/
theorem given_single (entries : List (String × Json)) :
    (single names).given entries = ((entries.map Prod.fst).filter (· ∈ names)).map names.idxOf := by
  induction entries with
  | nil => rfl
  | cons e entries ih =>
    rw [Fields.given_cons, ih, find?_single, List.map_cons, List.filter_cons]
    by_cases h : e.1 ∈ names <;> simp [h]

theorem first?_single (hd : names.Nodup) (entries : List (String × Json)) {i : Nat} (hi : i < names.length) :
    (single names).first? entries i = entries.lookup names[i] := by
  rw [List.lookup_eq_findSome?, Fields.first?]
  congr 1
  funext e
  have he : (single names).find? e.1 = some i ↔ names[i] = e.1 := by
    rw [find?_single]
    constructor
    · intro h
      split_ifs at h with hm
      obtain rfl := Option.some.inj h
      exact List.getElem_idxOf hi
    · intro h
      have hm : e.1 ∈ names := h ▸ List.getElem_mem hi
      rw [if_pos hm, ← h, hd.idxOf_getElem]
  simp [he]

/-- what an object gives by name is its members, when all their names are texts -/
theorem named_eq_some_iff {members : List (Option String × Json)} {entries : List (String × Json)} :
    named members = some entries ↔ members = entries.map fun e => (some e.1, e.2) := by
  induction members generalizing entries with
  | nil => cases entries <;> simp [named]
  | cons m members ih =>
    obtain ⟨_ | name, j⟩ := m
    · rw [named_cons_none]
      cases entries <;> simp
    · rw [named_cons_some, Option.map_eq_some_iff]
      constructor
      · rintro ⟨rest, hrest, rfl⟩
        rw [ih.1 hrest, List.map_cons]
      · intro h
        cases entries with
        | nil => simp at h
        | cons e entries =>
          simp only [List.map_cons, List.cons.injEq, Prod.mk.injEq, Option.some.injEq] at h
          obtain ⟨⟨rfl, rfl⟩, hrest⟩ := h
          exact ⟨entries, ih.2 hrest, rfl⟩

theorem exists_named {members : List (Option String × Json)} (h : ∀ m ∈ members, m.1 ≠ none) :
    ∃ entries : List (String × Json), members = entries.map fun e => (some e.1, e.2) := by
  induction members with
  | nil => exact ⟨[], rfl⟩
  | cons m members ih =>
    obtain ⟨hm, hmembers⟩ := List.forall_mem_cons.1 h
    obtain ⟨entries, rfl⟩ := ih hmembers
    obtain ⟨_ | name, j⟩ := m
    · exact absurd rfl hm
    · exact ⟨(name, j) :: entries, rfl⟩

theorem lookup_named (entries : List (String × Json)) (name : String) :
    (entries.map fun e => (some e.1, e.2)).lookup (some name) = entries.lookup name := by
  induction entries with
  | nil => rfl
  | cons e entries ih =>
    rw [List.map_cons, List.lookup_cons, List.lookup_cons, ih]
    rfl

theorem knownNames_named (entries : List (String × Json)) :
    knownNames names (entries.map fun e => (some e.1, e.2)) = (entries.map Prod.fst).filter (· ∈ names) := by
  rw [knownNames, List.filterMap_map]
  congr 1
  induction entries with
  | nil => rfl
  | cons e entries _ => simp

/-- an object is a record when each of its names is a text and no known name stands twice -/
theorem record?_object_eq_some_iff (hd : names.Nodup) {members : List (Option String × Json)}
    {values : List (Option Json)} :
    (Json.object members).record? (single names) = some values ↔
      IsRecord names (.object members) ∧ values = names.map fun name => field? names name (.object members) := by
  have hvalues : ∀ entries : List (String × Json),
      (List.range (single names).length).map ((single names).first? entries) =
        names.map fun name => entries.lookup name := by
    intro entries
    apply List.ext_getElem
    · simp [single]
    · intro i hi _
      have hlt : i < names.length := by simpa [single] using hi
      rw [List.getElem_map, List.getElem_map, List.getElem_range, first?_single hd entries hlt]
  have hinj : ∀ entries : List (String × Json), ((single names).given entries).Nodup ↔
      ((entries.map Prod.fst).filter (· ∈ names)).Nodup := by
    intro entries
    rw [given_single]
    refine ⟨List.Nodup.of_map _, List.Nodup.map_on fun x hx y _ hxy => ?_⟩
    have hm : x ∈ names := by simpa using (List.mem_filter.1 hx).2
    exact (List.idxOf_inj hm).1 hxy
  rw [record?_object, Option.bind_eq_some_iff]
  constructor
  · rintro ⟨entries, hn, hp⟩
    obtain ⟨hdistinct, rfl⟩ := Fields.place?_eq_some_iff.1 hp
    obtain rfl := named_eq_some_iff.1 hn
    refine ⟨.object ?_ ?_, ?_⟩
    · intro m hm
      obtain ⟨e, -, rfl⟩ := List.mem_map.1 hm
      exact nofun
    · rw [knownNames_named]
      exact (hinj entries).1 hdistinct
    · simp only [hvalues, field?, lookup_named]
  · rintro ⟨hr, rfl⟩
    cases hr with
    | object htexts hdistinct =>
      obtain ⟨entries, rfl⟩ := exists_named htexts
      rw [knownNames_named] at hdistinct
      refine ⟨entries, named_eq_some_iff.2 rfl, Fields.place?_eq_some_iff.2 ⟨(hinj entries).2 hdistinct, ?_⟩⟩
      simp only [hvalues, field?, lookup_named]

/-- a list is a record when it is not longer than the fields are many; fields beyond its end are not given -/
theorem record?_list_eq_some_iff (hd : names.Nodup) {items : List Json} {values : List (Option Json)} :
    (Json.list items).record? (single names) = some values ↔
      IsRecord names (.list items) ∧ values = names.map fun name => field? names name (.list items) := by
  have hplaces : names.map (fun name => field? names name (.list items)) =
      (List.range names.length).map fun i => items[i]? := by
    apply List.ext_getElem
    · simp
    · intro i hi _
      simp [field?, hd.idxOf_getElem]
  have hgiven : items.length ≤ names.length →
      items.map some ++ Fields.blank ((single names).drop items.length) =
        (List.range names.length).map fun i => items[i]? := by
    intro hle
    apply List.ext_getElem
    · simp [Fields.blank, single]
      omega
    · intro i hi hi'
      simp only [List.getElem_append, List.length_map, List.getElem_map, List.getElem_range]
      split_ifs with hlt
      · rw [List.getElem?_eq_getElem hlt]
      · rw [List.getElem?_eq_none (Nat.not_lt.1 hlt)]
        simp [Fields.blank]
  have hlen : (single names).length = names.length := List.length_map _
  unfold record?
  dsimp only
  rw [hlen, hplaces]
  constructor
  · intro h
    split_ifs at h with hle
    obtain rfl := Option.some.inj h
    exact ⟨.list hle, hgiven hle⟩
  · rintro ⟨hr, rfl⟩
    cases hr with
    | list hle => rw [if_pos hle, hgiven hle]

/-- **The values of a record are what it gives for each field** -/
theorem record?_eq_some_iff (hd : names.Nodup) {j : Json} {values : List (Option Json)} :
    j.record? (single names) = some values ↔
      IsRecord names j ∧ values = names.map fun name => field? names name j := by
  cases j with
  | object members => exact record?_object_eq_some_iff hd
  | list items => exact record?_list_eq_some_iff hd
  | null => exact ⟨nofun, fun h => nomatch h.1⟩
  | bool b => exact ⟨nofun, fun h => nomatch h.1⟩
  | number n => exact ⟨nofun, fun h => nomatch h.1⟩
  | string text => exact ⟨nofun, fun h => nomatch h.1⟩

end

/-! ## Fields -/

section

variable {α : Type} {read : Json → Option α} {R : Json → α → Prop}

/-- an optional field: nothing when it is not there or null, or what its value is -/
inductive Optionally (R : Json → α → Prop) : Option Json → Option α → Prop where
  | absent : Optionally R none none
  | null : Optionally R (some .null) none
  | value {j : Json} {a : α} : R j a → Optionally R (some j) (some a)

/-- a list of values, each of which is one of these -/
def IsList (R : Json → α → Prop) (j : Json) (as : List α) : Prop := ∃ items, j = .list items ∧ List.Forall₂ R items as

theorem mapM_eq_some_iff (h : ∀ j a, read j = some a ↔ R j a) {items : List Json} {as : List α} :
    items.mapM read = some as ↔ List.Forall₂ R items as := by
  induction items generalizing as with
  | nil =>
    rw [List.mapM_nil, List.forall₂_nil_left_iff]
    exact Option.some_inj.trans eq_comm
  | cons j items ih =>
    rw [List.mapM_cons, List.forall₂_cons_left_iff]
    simp only [Option.bind_eq_bind, Option.bind_eq_some_iff, Option.pure_def, Option.some.injEq, h, ih]
    constructor
    · rintro ⟨a, ha, as, has, rfl⟩
      exact ⟨a, as, ha, has, rfl⟩
    · rintro ⟨a, as, ha, has, rfl⟩
      exact ⟨a, ha, as, has, rfl⟩

theorem listOf?_eq_some_iff (h : ∀ j a, read j = some a ↔ R j a) {j : Json} {as : List α} :
    listOf? read j = some as ↔ IsList R j as := by
  cases j with
  | list items =>
    rw [listOf?, mapM_eq_some_iff h]
    constructor
    · intro hitems
      exact ⟨items, rfl, hitems⟩
    · rintro ⟨items, heq, hitems⟩
      cases heq
      exact hitems
  | null => exact ⟨nofun, fun h => nomatch h⟩
  | bool b => exact ⟨nofun, fun h => nomatch h⟩
  | number n => exact ⟨nofun, fun h => nomatch h⟩
  | string text => exact ⟨nofun, fun h => nomatch h⟩
  | object members => exact ⟨nofun, fun h => nomatch h⟩

theorem optional?_of_ne_null {j : Json} (h : j ≠ .null) : optional? read j = (read j).map some := by
  cases j with
  | null => exact absurd rfl h
  | _ => rfl

/-- an optional field is read as what it is, when null is no value of its own -/
theorem optionally_iff (h : ∀ j a, read j = some a ↔ R j a) (hnull : read .null = none) {given : Option Json}
    {value : Option α} : default? none (optional? read) given = some value ↔ Optionally R given value := by
  constructor
  · intro hread
    cases given with
    | none =>
      cases hread
      exact .absent
    | some j =>
      by_cases hj : j = .null
      · subst hj
        cases hread
        exact .null
      · rw [default?, optional?_of_ne_null hj, Option.map_eq_some_iff] at hread
        obtain ⟨a, ha, rfl⟩ := hread
        exact .value ((h j a).1 ha)
  · intro hgiven
    cases hgiven with
    | absent => rfl
    | null => rfl
    | @value j a hja =>
      have hread : read j = some a := (h j a).2 hja
      have hj : j ≠ .null := by
        rintro rfl
        rw [hnull] at hread
        cases hread
      rw [default?, optional?_of_ne_null hj, hread]
      rfl

end

/-! ## Texts -/

/-- a text: a string that has one, or a list of such strings put together -/
inductive IsText : Json → String → Prop where
  | string (text : String) : IsText (.string (some text)) text
  | lines (lines : List String) : IsText (.list (lines.map fun line => .string (some line))) (String.join lines)

theorem string?_eq_some_iff {j : Json} {text : String} : j.string? = some text ↔ j = .string (some text) := by
  cases j <;> simp [string?]

theorem mapM_string?_eq_some_iff {items : List Json} {lines : List String} :
    items.mapM string? = some lines ↔ items = lines.map fun line => .string (some line) := by
  rw [mapM_eq_some_iff (R := fun j text => j = .string (some text)) fun j text => string?_eq_some_iff]
  rw [← List.forall₂_eq_eq_eq]
  rw [List.forall₂_map_right_iff]

theorem textOf?_eq_some_iff {j : Json} {text : String} : Cell.textOf? j = some text ↔ IsText j text := by
  constructor
  · intro h
    unfold Cell.textOf? at h
    split at h
    · rw [h]
      exact .string text
    · rename_i items
      obtain ⟨lines, hlines, rfl⟩ := Option.map_eq_some_iff.1 h
      rw [mapM_string?_eq_some_iff.1 hlines]
      exact .lines lines
    · cases h
  · intro h
    cases h with
    | string => rfl
    | lines lines => rw [Cell.textOf?, mapM_string?_eq_some_iff.2 rfl, Option.map_some]

end Json

/-! ## Notebooks -/

open Json

/-- the names of a cell's fields, in order -/
def Cell.names : List String := ["cell_type", "source", "input"]

/-- the name of a worksheet's field -/
def Notebook.worksheetNames : List String := ["cells"]

/-- the names of a notebook's fields, in order -/
def Notebook.names : List String := ["cells", "worksheets"]

/-- a value is this cell: its kind is a text if it is given, and it has a text, or none, under either name -/
structure IsCell (j : Json) (c : Cell) : Prop where
  record : IsRecord Cell.names j
  kind : ∀ value ∈ field? Cell.names "cell_type" j, ∃ text, value = .string (some text)
  source : Optionally IsText (field? Cell.names "source" j) c.source
  input : Optionally IsText (field? Cell.names "input" j) c.input

/-- a value is a worksheet with these cells; without a list it has none, but the list is not null -/
structure IsWorksheet (j : Json) (cells : List Cell) : Prop where
  record : IsRecord Notebook.worksheetNames j
  absent : field? Notebook.worksheetNames "cells" j = none → cells = []
  given : ∀ value ∈ field? Notebook.worksheetNames "cells" j, IsList IsCell value cells

/-- a value is this notebook: a list of cells, a list of worksheets, or both or neither -/
structure IsNotebook (j : Json) (n : Notebook) : Prop where
  record : IsRecord Notebook.names j
  cells : Optionally (IsList IsCell) (field? Notebook.names "cells" j) n.cells
  worksheets : Optionally (IsList IsWorksheet) (field? Notebook.names "worksheets" j) n.worksheets

/-- the text of a kind is not looked at -/
theorem kind_iff {given : Option Json} :
    (∃ text, default? "" string? given = some text) ↔ ∀ value ∈ given, ∃ text, value = .string (some text) := by
  cases given with
  | none => simp [default?]
  | some value => simp [default?, string?_eq_some_iff]

/-- **The reader of cells takes what is a cell** -/
theorem Cell.ofJson?_eq_some_iff {j : Json} {c : Cell} : Cell.ofJson? j = some c ↔ IsCell j c := by
  have hd : Cell.names.Nodup := by decide
  have hvalues : Cell.names.map (fun name => field? Cell.names name j) =
      [field? Cell.names "cell_type" j, field? Cell.names "source" j, field? Cell.names "input" j] := rfl
  have htext {given value} : default? none (optional? Cell.textOf?) given = some value ↔ Optionally IsText given value :=
    optionally_iff (fun j text => textOf?_eq_some_iff) rfl
  unfold Cell.ofJson?
  rw [Option.bind_eq_bind, Option.bind_eq_some_iff]
  constructor
  · rintro ⟨values, hrecord, h⟩
    obtain ⟨hr, rfl⟩ := (record?_eq_some_iff hd).1 hrecord
    rw [hvalues] at h
    simp only [Option.bind_eq_bind, Option.bind_eq_some_iff, htext] at h
    obtain ⟨text, hkind, source, hsource, input, hinput, hc⟩ := h
    cases hc
    exact ⟨hr, kind_iff.1 ⟨text, hkind⟩, hsource, hinput⟩
  · rintro ⟨hr, hkind, hsource, hinput⟩
    obtain ⟨text, hkind⟩ := kind_iff.2 hkind
    refine ⟨_, (record?_eq_some_iff hd).2 ⟨hr, hvalues.symm⟩, ?_⟩
    simp only [hkind, htext.2 hsource, htext.2 hinput]
    rfl

/-- the cells of a worksheet may be left out, but not be null -/
theorem sheetCells_iff {given : Option Json} {cells : List Cell} :
    default? [] (listOf? Cell.ofJson?) given = some cells ↔
      (given = none → cells = []) ∧ ∀ value ∈ given, IsList IsCell value cells := by
  cases given with
  | none => simp [default?, eq_comm]
  | some value =>
    rw [default?, listOf?_eq_some_iff fun j c => Cell.ofJson?_eq_some_iff]
    simp

/-- **The reader of worksheets takes what is a worksheet** -/
theorem Notebook.worksheetOfJson?_eq_some_iff {j : Json} {cells : List Cell} :
    Notebook.worksheetOfJson? j = some cells ↔ IsWorksheet j cells := by
  have hd : Notebook.worksheetNames.Nodup := by decide
  have hvalues : Notebook.worksheetNames.map (fun name => field? Notebook.worksheetNames name j) =
      [field? Notebook.worksheetNames "cells" j] := rfl
  unfold Notebook.worksheetOfJson?
  rw [Option.bind_eq_bind, Option.bind_eq_some_iff]
  constructor
  · rintro ⟨values, hrecord, h⟩
    obtain ⟨hr, rfl⟩ := (record?_eq_some_iff hd).1 hrecord
    rw [hvalues] at h
    obtain ⟨habsent, hgiven⟩ := sheetCells_iff.1 h
    exact ⟨hr, habsent, hgiven⟩
  · rintro ⟨hr, habsent, hgiven⟩
    exact ⟨_, (record?_eq_some_iff hd).2 ⟨hr, hvalues.symm⟩, sheetCells_iff.2 ⟨habsent, hgiven⟩⟩

/-- **The reader of notebooks takes what is a notebook** -/
theorem Notebook.ofJson?_eq_some_iff {j : Json} {n : Notebook} : Notebook.ofJson? j = some n ↔ IsNotebook j n := by
  have hd : Notebook.names.Nodup := by decide
  have hvalues : Notebook.names.map (fun name => field? Notebook.names name j) =
      [field? Notebook.names "cells" j, field? Notebook.names "worksheets" j] := rfl
  have hcells {given value} :
      default? none (optional? (listOf? Cell.ofJson?)) given = some value ↔ Optionally (IsList IsCell) given value :=
    optionally_iff (fun j cells => listOf?_eq_some_iff fun j c => Cell.ofJson?_eq_some_iff) rfl
  have hsheets {given value} :
      default? none (optional? (listOf? Notebook.worksheetOfJson?)) given = some value ↔
        Optionally (IsList IsWorksheet) given value :=
    optionally_iff (fun j sheets => listOf?_eq_some_iff fun j cells => Notebook.worksheetOfJson?_eq_some_iff) rfl
  unfold Notebook.ofJson?
  rw [Option.bind_eq_bind, Option.bind_eq_some_iff]
  constructor
  · rintro ⟨values, hrecord, h⟩
    obtain ⟨hr, rfl⟩ := (record?_eq_some_iff hd).1 hrecord
    rw [hvalues] at h
    simp only [Option.bind_eq_bind, Option.bind_eq_some_iff, hcells, hsheets] at h
    obtain ⟨cells, hc, sheets, hs, hn⟩ := h
    cases hn
    exact ⟨hr, hc, hs⟩
  · rintro ⟨hr, hc, hs⟩
    refine ⟨_, (record?_eq_some_iff hd).2 ⟨hr, hvalues.symm⟩, ?_⟩
    simp only [hcells.2 hc, hsheets.2 hs]
    rfl

end ImportHarvest

import ImportHarvest.Json.Basic
import Mathlib.Data.List.GetD
import Mathlib.Data.List.Pairwise
/-!
Records by the names of their fields.

What is given under the names of a record has a meaning exactly when no field is given twice, under one name or under
two; then each field has the value that was given for it (`place?_eq_some_iff`), and an entry for a field of its own
changes no other (`place?_insert`). Only the field that a name belongs to counts, so a record does not change when
fields are given by other names of theirs (`place?_map_name`). An object is the record of what it gives by name, when
all its names are texts (`record?_object`).
-/

namespace ImportHarvest.Fields

variable {α : Type} {fields : Fields}

/-- the fields that are given, each as often as it is -/
def given (fields : Fields) (entries : List (String × α)) : List Nat := entries.filterMap fun e => fields.find? e.1

/-- the first value that is given for a field -/
def first? (fields : Fields) (entries : List (String × α)) (i : Nat) : Option α :=
  entries.findSome? fun e => if fields.find? e.1 = some i then some e.2 else none

theorem find?_lt {name : String} {i : Nat} (h : fields.find? name = some i) : i < fields.length := by
  obtain ⟨hi, -⟩ := List.findIdx?_eq_some_iff_getElem.1 h
  exact hi

/-! ## One entry -/

theorem putOne?_of_unknown {name : String} (h : fields.find? name = none) (value : α) (values : List (Option α)) :
    fields.putOne? name value values = some values := by
  rw [putOne?, h]

theorem putOne?_of_open {name : String} {i : Nat} (h : fields.find? name = some i) (value : α)
    {values : List (Option α)} (hv : values.getD i none = none) :
    fields.putOne? name value values = some (values.set i (some value)) := by
  rw [putOne?, h]
  simp only [hv, Option.isSome_none, Bool.false_eq_true, if_false]

theorem putOne?_of_taken {name : String} {i : Nat} (h : fields.find? name = some i) (value : α)
    {values : List (Option α)} (hv : values.getD i none ≠ none) : fields.putOne? name value values = none := by
  rw [putOne?, h]
  simp only [Option.isSome_iff_ne_none.2 hv, if_true]

theorem getD_set {values : List (Option α)} {i : Nat} (hi : i < values.length) (value : Option α) (j : Nat) :
    (values.set i value).getD j none = if j = i then value else values.getD j none := by
  rw [List.getD_eq_getElem?_getD, List.getD_eq_getElem?_getD, List.getElem?_set]
  by_cases h : i = j
  · rw [if_pos h, if_pos h.symm, if_pos (h ▸ hi), Option.getD_some]
  · rw [if_neg h, if_neg (Ne.symm h)]

/-- with one field given, others are still open when they were before and are not that field -/
theorem forall_open_iff {values : List (Option α)} {i : Nat} {value : α} {others : List Nat} :
    (∀ j ∈ others, (if j = i then some value else values.getD j none) = none) ↔
      i ∉ others ∧ ∀ j ∈ others, values.getD j none = none := by
  constructor
  · intro h
    have hi : i ∉ others := fun hm => by simpa using h i hm
    exact ⟨hi, fun j hj => by simpa [ne_of_mem_of_not_mem hj hi] using h j hj⟩
  · rintro ⟨hi, h⟩ j hj
    rw [if_neg (ne_of_mem_of_not_mem hj hi)]
    exact h j hj

/-- the value that an open field is given now goes before what is given later -/
theorem set_or {values : List (Option α)} {i : Nat} (hv : values.getD i none = none) (value : α) (later : Option α)
    (j : Nat) : (if j = i then some value else values.getD j none).or later =
      (values.getD j none).or (if i = j then some value else later) := by
  by_cases hj : j = i
  · rw [if_pos hj, if_pos hj.symm, hj, hv]
    rfl
  · rw [if_neg hj, if_neg (Ne.symm hj)]

/-! ## All entries -/

theorem given_cons (e : String × α) (entries : List (String × α)) :
    fields.given (e :: entries) = (fields.find? e.1).toList ++ fields.given entries := by
  unfold given
  rw [List.filterMap_cons]
  cases fields.find? e.1 <;> rfl

theorem first?_cons (e : String × α) (entries : List (String × α)) (i : Nat) :
    fields.first? (e :: entries) i = if fields.find? e.1 = some i then some e.2 else fields.first? entries i := by
  unfold first?
  rw [List.findSome?_cons]
  by_cases h : fields.find? e.1 = some i
  · simp only [if_pos h]
  · simp only [if_neg h]

theorem first?_of_le {entries : List (String × α)} {i : Nat} (h : fields.length ≤ i) :
    fields.first? entries i = none := by
  refine List.findSome?_eq_none_iff.2 fun e _ => if_neg fun hi => ?_
  exact absurd (find?_lt hi) (Nat.not_lt.2 h)

/-- entries can be put to values when no field is given twice and none of those given has a value -/
theorem foldlM_putOne?_eq_some_iff {entries : List (String × α)} {values result : List (Option α)}
    (hlen : values.length = fields.length) :
    entries.foldlM (fun values (name, value) => fields.putOne? name value values) values = some result ↔
      (fields.given entries).Nodup ∧ (∀ i ∈ fields.given entries, values.getD i none = none) ∧
        result.length = fields.length ∧
        ∀ j, result.getD j none = (values.getD j none).or (fields.first? entries j) := by
  induction entries generalizing values with
  | nil =>
    have hnil : ∀ j, fields.first? ([] : List (String × α)) j = none := fun _ => rfl
    simp only [List.foldlM_nil, given, List.filterMap_nil, List.nodup_nil, List.not_mem_nil, false_implies,
      implies_true, true_and, hnil, Option.or_none]
    constructor
    · intro h
      cases h
      exact ⟨hlen, fun _ => rfl⟩
    · rintro ⟨hr, hvalues⟩
      refine congrArg some (List.ext_getElem (hlen.trans hr.symm) fun j hj hj' => ?_)
      have := hvalues j
      rwa [List.getD_eq_getElem _ _ hj, List.getD_eq_getElem _ _ hj', eq_comm] at this
  | cons e entries ih =>
    obtain ⟨name, value⟩ := e
    rw [List.foldlM_cons, given_cons]
    cases hf : fields.find? name with
    | none =>
      have hfirst : ∀ j, fields.first? ((name, value) :: entries) j = fields.first? entries j := by
        intro j
        rw [first?_cons, hf, if_neg nofun]
      simp only [putOne?_of_unknown hf, Option.toList_none, List.nil_append, hfirst]
      exact ih hlen
    | some i =>
      have hi : i < values.length := hlen ▸ find?_lt hf
      by_cases hv : values.getD i none = none
      · have hlen' : (values.set i (some value)).length = fields.length := by rw [List.length_set, hlen]
        simp only [putOne?_of_open hf value hv, Option.toList_some, List.singleton_append, List.nodup_cons,
          List.forall_mem_cons]
        refine (ih hlen').trans ?_
        simp only [getD_set hi, first?_cons, hf, Option.some.injEq, forall_open_iff, set_or hv, hv, true_and]
        constructor
        · rintro ⟨hd, ⟨hm, hopen⟩, hrest⟩
          exact ⟨⟨hm, hd⟩, hopen, hrest⟩
        · rintro ⟨⟨hm, hd⟩, hopen, hrest⟩
          exact ⟨hd, ⟨hm, hopen⟩, hrest⟩
      · have hnone : fields.putOne? name value values = none := putOne?_of_taken hf value hv
        simp only [hnone, Option.toList_some, List.singleton_append, List.forall_mem_cons]
        exact ⟨nofun, fun h => absurd h.2.1.1 hv⟩

/-- **A record has a meaning when no field is given twice**, and then its fields have the values that are given -/
theorem place?_eq_some_iff {entries : List (String × α)} {values : List (Option α)} :
    fields.place? entries = some values ↔
      (fields.given entries).Nodup ∧ values = (List.range fields.length).map (fields.first? entries) := by
  have hblank : ∀ i, (fields.blank : List (Option α)).getD i none = none := by
    intro i
    rw [blank, List.map_const']
    by_cases hi : i < fields.length
    · rw [List.getD_replicate _ hi]
    · rw [List.getD_eq_default _ _ (by rw [List.length_replicate]; exact Nat.not_lt.1 hi)]
  have hlen : (fields.blank : List (Option α)).length = fields.length := List.length_map _
  rw [place?, foldlM_putOne?_eq_some_iff hlen]
  simp only [hblank, implies_true, true_and, Option.none_or]
  refine and_congr_right fun _ => ⟨?_, ?_⟩
  · rintro ⟨hr, hvalues⟩
    refine List.ext_getElem (by rw [hr, List.length_map, List.length_range]) fun j hj _ => ?_
    rw [← List.getD_eq_getElem _ none hj, hvalues, List.getElem_map, List.getElem_range]
  · rintro rfl
    refine ⟨by rw [List.length_map, List.length_range], fun j => ?_⟩
    by_cases hj : j < fields.length
    · rw [List.getD_eq_getElem _ _ (by rwa [List.length_map, List.length_range]), List.getElem_map,
        List.getElem_range]
    · have hle : fields.length ≤ j := Nat.not_lt.1 hj
      rw [List.getD_eq_default _ _ (by rwa [List.length_map, List.length_range]), first?_of_le hle]

/-- two entries belong to different fields, or to none -/
def Apart (fields : Fields) (a b : String × α) : Prop :=
  ∀ i, fields.find? a.1 = some i → ∀ j, fields.find? b.1 = some j → i ≠ j

instance : Std.Symm (fields.Apart (α := α)) := ⟨fun _ _ h i hi j hj => (h j hj i hi).symm⟩

/-- two entries of one field are one too many -/
theorem place?_eq_none {entries : List (String × α)} {a b : String × α} {i : Nat} (ha : a ∈ entries) (hb : b ∈ entries)
    (hab : a ≠ b) (hi : fields.find? a.1 = some i) (hj : fields.find? b.1 = some i) : fields.place? entries = none := by
  cases h : fields.place? entries with
  | none => rfl
  | some values =>
    have hd : entries.Pairwise fields.Apart := List.pairwise_filterMap.1 (place?_eq_some_iff.1 h).1
    exact absurd rfl (hd.forall ha hb hab i hi i hj)

/-! ## One entry more -/

section

variable {before after : List (String × α)} {name : String} {i : Nat}

theorem given_append (before after : List (String × α)) :
    fields.given (before ++ after) = fields.given before ++ fields.given after := List.filterMap_append ..

theorem not_mem_given {entries : List (String × α)} (h : ∀ e ∈ entries, fields.find? e.1 ≠ some i) :
    i ∉ fields.given entries := by
  intro hi
  obtain ⟨e, he, hfind⟩ := List.mem_filterMap.1 hi
  exact h e he hfind

theorem first?_append (before after : List (String × α)) (j : Nat) :
    fields.first? (before ++ after) j = (fields.first? before j).or (fields.first? after j) := List.findSome?_append

theorem first?_free {entries : List (String × α)} (h : ∀ e ∈ entries, fields.find? e.1 ≠ some i) :
    fields.first? entries i = none := List.findSome?_eq_none_iff.2 fun e he => if_neg (h e he)

/-- an entry for a field that nothing else gives is put in by itself -/
theorem place?_insert (hi : fields.find? name = some i) (hfree : ∀ e ∈ before ++ after, fields.find? e.1 ≠ some i)
    (v : α) : fields.place? (before ++ (name, v) :: after) =
      (fields.place? (before ++ after)).map fun values => values.set i (some v) := by
  have hnodup : (fields.given (before ++ (name, v) :: after)).Nodup ↔ (fields.given (before ++ after)).Nodup := by
    have hnew : i ∉ fields.given (before ++ after) := not_mem_given hfree
    rw [given_append] at hnew
    simp only [given_append, given_cons, hi, Option.toList_some, List.singleton_append]
    rw [List.perm_middle.nodup_iff, List.nodup_cons]
    exact and_iff_right hnew
  have hvalues : (List.range fields.length).map (fields.first? (before ++ (name, v) :: after)) =
      ((List.range fields.length).map (fields.first? (before ++ after))).set i (some v) := by
    refine List.ext_getElem (by simp) fun j hj hj' => ?_
    rw [List.getElem_set, List.getElem_map, List.getElem_map, List.getElem_range, first?_append, first?_cons,
      first?_append, hi]
    by_cases hij : i = j
    · have hbefore : fields.first? before i = none := first?_free fun e he => hfree e (List.mem_append_left _ he)
      rw [if_pos hij, if_pos (congrArg some hij), ← hij, hbefore, Option.none_or]
    · rw [if_neg hij, if_neg fun h => hij (Option.some.inj h)]
  refine Option.ext fun values => ?_
  rw [place?_eq_some_iff, hnodup, hvalues, Option.map_eq_some_iff]
  constructor
  · rintro ⟨hd, rfl⟩
    exact ⟨_, place?_eq_some_iff.2 ⟨hd, rfl⟩, rfl⟩
  · rintro ⟨others, hothers, rfl⟩
    obtain ⟨hd, rfl⟩ := place?_eq_some_iff.1 hothers
    exact ⟨hd, rfl⟩

/-- what is not given has no value -/
theorem place?_free {entries : List (String × α)} {values : List (Option α)} (h : fields.place? entries = some values)
    (hfree : ∀ e ∈ entries, fields.find? e.1 ≠ some i) : values.set i none = values := by
  obtain ⟨-, rfl⟩ := place?_eq_some_iff.1 h
  refine List.ext_getElem (by simp) fun j hj hj' => ?_
  rw [List.getElem_set]
  split
  · rename_i hij
    rw [List.getElem_map, List.getElem_range, ← hij, first?_free hfree]
  · rfl

end

/-! ## Other names -/

/-- a record is the same when its fields are given by other names of theirs -/
theorem place?_map_name {rename : String → String} (h : ∀ name, fields.find? (rename name) = fields.find? name)
    (entries : List (String × α)) :
    fields.place? (entries.map fun e => (rename e.1, e.2)) = fields.place? entries := by
  have hput : ∀ (name : String) (value : α), fields.putOne? (rename name) value = fields.putOne? name value := by
    intro name value
    funext values
    rw [putOne?, putOne?, h]
  rw [place?, place?, List.foldlM_map]
  simp only [hput]

end ImportHarvest.Fields

namespace ImportHarvest.Json

/-! ## Objects as records -/

/-- what an object gives by name; none when one of its names is no text -/
def named (members : List (Option String × Json)) : Option (List (String × Json)) :=
  members.mapM fun (name, j) => name.map fun n => (n, j)

section

variable {members : List (Option String × Json)} {given : List (String × Json)}

theorem record?_object (fields : Fields) (members : List (Option String × Json)) :
    (Json.object members).record? fields = (named members).bind fields.place? := rfl

theorem named_cons_some (name : String) (j : Json) (members : List (Option String × Json)) :
    named ((some name, j) :: members) = (named members).map ((name, j) :: ·) := by
  rw [named, List.mapM_cons, ← named]
  cases named members <;> rfl

theorem named_cons_none (j : Json) (members : List (Option String × Json)) : named ((none, j) :: members) = none := by
  rw [named, List.mapM_cons]
  rfl

theorem named_append (a b : List (Option String × Json)) :
    named (a ++ b) = (named a).bind fun first => (named b).map (first ++ ·) := by
  rw [named, List.mapM_append, ← named, ← named]
  cases named a with
  | none => rfl
  | some first => cases named b <;> rfl

/-- what an object gives by name stands among its members -/
theorem mem_of_named (h : named members = some given) {e : String × Json} (he : e ∈ given) :
    (some e.1, e.2) ∈ members := by
  induction members generalizing given with
  | nil =>
    cases h
    exact absurd he List.not_mem_nil
  | cons m members ih =>
    obtain ⟨_ | name, j⟩ := m
    · rw [named_cons_none] at h
      cases h
    · rw [named_cons_some] at h
      obtain ⟨rest, hrest, rfl⟩ := Option.map_eq_some_iff.1 h
      rcases List.mem_cons.1 he with rfl | he
      · exact List.mem_cons_self ..
      · exact List.mem_cons_of_mem _ (ih hrest he)

/-- what an object gives by name when its names are written in another way -/
theorem named_rename (rename : String → String) (members : List (Option String × Json)) :
    named (members.map fun m => (m.1.map rename, m.2)) =
      (named members).map (List.map fun (e : String × Json) => (rename e.1, e.2)) := by
  induction members with
  | nil => rfl
  | cons m members ih =>
    obtain ⟨_ | name, j⟩ := m
    · rw [List.map_cons, Option.map_none, named_cons_none, named_cons_none, Option.map_none]
    · rw [List.map_cons, Option.map_some, named_cons_some, named_cons_some, ih]
      cases named members <;> rfl

/-- an object is the same record when its fields are given by other names of theirs -/
theorem record?_rename {fields : Fields} {rename : String → String}
    (h : ∀ name, fields.find? (rename name) = fields.find? name) (members : List (Option String × Json)) :
    (Json.object (members.map fun m => (m.1.map rename, m.2))).record? fields = (Json.object members).record? fields := by
  rw [record?_object, record?_object, named_rename]
  cases named members with
  | none => rfl
  | some given => exact Fields.place?_map_name h given

end

end ImportHarvest.Json

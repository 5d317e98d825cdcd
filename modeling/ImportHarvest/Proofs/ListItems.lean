import ImportHarvest.CommandLine.Arguments
import ImportHarvest.Proofs.Trimmed
import Mathlib.Data.List.Nodup
/-!
The items of the two list settings in normal form.

Extensions in normal form are distinct, start with a dot and have no blanks at their ends (`NormalExtensions`); globs
are not empty and have no blanks at their ends (`NormalGlobs`). Every list of items comes to a normal one, and a normal
one comes to itself. The command line takes the blanks off first, drops what is empty and only then adds dots, which
comes to the same as adding dots to all items (`listedExtensions_eq`).
-/

namespace ImportHarvest.Settings

open Text

/-! ## Extensions one by one -/

section

variable {s : String} {cs : List Char}

/-- a dotted text is taken as it is, once blanks are off -/
theorem normalizeExtension_dotted (h : trim s.toList = '.' :: cs) :
    normalizeExtension s = some (String.ofList ('.' :: cs)) := by
  rw [normalizeExtension, h]
  rfl

/-- any other text that is not blank gains a dot -/
theorem normalizeExtension_undotted {c : Char} (h : trim s.toList = c :: cs) (hc : c ≠ '.') :
    normalizeExtension s = some (String.ofList ('.' :: c :: cs)) := by
  rw [normalizeExtension, h]
  split
  · rename_i hnil
    cases hnil
  · rename_i hdot
    exact absurd (List.cons.inj hdot).1 hc
  · rfl

theorem normalizeExtension_blank (h : trim s.toList = []) : normalizeExtension s = none := by
  rw [normalizeExtension, h]

/-- an extension starts with a dot and has no blanks at its ends -/
theorem dotted_of_normalizeExtension {e : String} (h : normalizeExtension s = some e) :
    e.toList.head? = some '.' ∧ Tight e := by
  have hdot : isBlank '.' = false := by decide
  have hlast := last_trim s.toList
  cases ht : trim s.toList with
  | nil =>
    rw [normalizeExtension_blank ht] at h
    cases h
  | cons c cs =>
    rw [ht] at hlast
    by_cases hc : c = '.'
    · subst hc
      rw [normalizeExtension_dotted ht] at h
      cases h
      refine ⟨by simp, ?_, ?_⟩
      · simp [hdot]
      · rwa [String.toList_ofList]
    · rw [normalizeExtension_undotted ht hc] at h
      cases h
      refine ⟨by simp, ?_, ?_⟩
      · simp [hdot]
      · -- the last character is the one that the text ended with
        rw [String.toList_ofList, List.getLast?_cons_cons]
        exact hlast

/-- a dotted text without blanks at its ends is an extension as it is -/
theorem normalizeExtension_of_dotted (hdot : s.toList.head? = some '.') (ht : Tight s) :
    normalizeExtension s = some s := by
  obtain ⟨cs, hcs⟩ : ∃ cs, s.toList = '.' :: cs := by
    cases hs : s.toList with
    | nil => simp [hs] at hdot
    | cons c cs =>
      rw [hs, List.head?_cons] at hdot
      exact ⟨cs, by rw [Option.some.inj hdot]⟩
  have htrim : trim s.toList = '.' :: cs := (trim_of_tight ht).trans hcs
  rw [normalizeExtension_dotted htrim, ← hcs, String.ofList_toList]

/-- blanks around an item do not matter -/
theorem normalizeExtension_trimmed (s : String) : normalizeExtension (trimmed s) = normalizeExtension s := by
  rw [normalizeExtension, trimmed, String.toList_ofList, trim_trim, ← normalizeExtension]

/-- what is empty without its blanks gives no extension, so it can be left out first -/
theorem filterMap_normalizeExtension_filter (items : List String) :
    ((items.map trimmed).filter (· ≠ "")).filterMap normalizeExtension = items.filterMap normalizeExtension := by
  have hempty : normalizeExtension "" = none := rfl
  induction items with
  | nil => rfl
  | cons item items ih =>
    rw [List.map_cons, List.filterMap_cons, ← normalizeExtension_trimmed item]
    by_cases hitem : trimmed item = ""
    · rw [List.filter_cons_of_neg (by simp [hitem]), hitem, hempty]
      exact ih
    · rw [List.filter_cons_of_pos (by simp [hitem]), List.filterMap_cons, ih]

end

/-! ## First occurrences -/

section

variable {xs seen : List String}

theorem nodup_foldl_firstSeen (h : seen.Nodup) :
    (xs.foldl (fun seen x => if seen.contains x then seen else seen ++ [x]) seen).Nodup := by
  induction xs generalizing seen with
  | nil => exact h
  | cons x xs ih =>
    rw [List.foldl_cons]
    apply ih
    split
    · exact h
    · rename_i hx
      have hnew : x ∉ seen := by simpa using hx
      refine List.nodup_append.2 ⟨h, List.nodup_singleton x, ?_⟩
      intro a ha b hb hab
      rw [List.mem_singleton] at hb
      exact hnew (hb ▸ hab ▸ ha)

theorem mem_foldl_firstSeen {x : String} :
    x ∈ xs.foldl (fun seen x => if seen.contains x then seen else seen ++ [x]) seen ↔ x ∈ seen ∨ x ∈ xs := by
  induction xs generalizing seen with
  | nil => simp
  | cons y xs ih =>
    rw [List.foldl_cons, ih]
    split
    · rename_i hy
      have hy : y ∈ seen := by simpa using hy
      constructor
      · rintro (h | h)
        · exact .inl h
        · exact .inr (List.mem_cons_of_mem y h)
      · rintro (h | h)
        · exact .inl h
        · rcases List.mem_cons.1 h with rfl | h
          · exact .inl hy
          · exact .inr h
    · simp [or_assoc]

theorem foldl_firstSeen_of_nodup (h : (seen ++ xs).Nodup) :
    xs.foldl (fun seen x => if seen.contains x then seen else seen ++ [x]) seen = seen ++ xs := by
  induction xs generalizing seen with
  | nil => simp
  | cons x xs ih =>
    have hnew : x ∉ seen := fun hx => List.disjoint_of_nodup_append h hx (List.mem_cons_self ..)
    have hrest : (seen ++ [x] ++ xs).Nodup := by simpa using h
    rw [List.foldl_cons, if_neg (by simpa using hnew), ih hrest, List.append_assoc, List.singleton_append]

theorem nodup_firstSeen (xs : List String) : (firstSeen xs).Nodup := nodup_foldl_firstSeen List.nodup_nil

theorem mem_firstSeen {x : String} : x ∈ firstSeen xs ↔ x ∈ xs := by
  rw [firstSeen, mem_foldl_firstSeen]
  simp

/-- a list without repeats is its own first occurrences -/
theorem firstSeen_of_nodup (h : xs.Nodup) : firstSeen xs = xs := foldl_firstSeen_of_nodup (by simpa using h)

end

/-! ## Lists in normal form -/

section

variable {items : List String}

/-- extensions in normal form -/
structure NormalExtensions (extensions : List String) : Prop where
  distinct : extensions.Nodup
  dotted : ∀ e ∈ extensions, e.toList.head? = some '.'
  tight : ∀ e ∈ extensions, Tight e

/-- globs in normal form -/
structure NormalGlobs (globs : List String) : Prop where
  nonempty : ∀ g ∈ globs, g ≠ ""
  tight : ∀ g ∈ globs, Tight g

/-- all items come to extensions in normal form -/
theorem normal_extensionsOf (items : List String) : NormalExtensions (extensionsOf items) := by
  have hitem : ∀ e ∈ extensionsOf items, e.toList.head? = some '.' ∧ Tight e := by
    intro e he
    obtain ⟨item, -, h⟩ := List.mem_filterMap.1 (mem_firstSeen.1 he)
    exact dotted_of_normalizeExtension h
  exact ⟨nodup_firstSeen _, fun e he => (hitem e he).1, fun e he => (hitem e he).2⟩

/-- all items come to globs in normal form -/
theorem normal_globsOf (items : List String) : NormalGlobs (globsOf items) := by
  constructor
  · intro g hg
    simpa using (List.mem_filter.1 hg).2
  · intro g hg
    obtain ⟨item, -, rfl⟩ := List.mem_map.1 (List.mem_filter.1 hg).1
    exact tight_trimmed item

/-- extensions in normal form come to themselves -/
theorem extensionsOf_of_normal (h : NormalExtensions items) : extensionsOf items = items := by
  have hsame : items.filterMap normalizeExtension = items.filterMap some :=
    List.filterMap_congr fun e he => normalizeExtension_of_dotted (h.dotted e he) (h.tight e he)
  rw [extensionsOf, hsame, List.filterMap_some, firstSeen_of_nodup h.distinct]

/-- globs in normal form come to themselves -/
theorem globsOf_of_normal (h : NormalGlobs items) : globsOf items = items := by
  have hsame : items.map trimmed = items.map id :=
    List.map_congr_left fun g hg => trimmed_of_tight (h.tight g hg)
  rw [globsOf, hsame, List.map_id, List.filter_eq_self]
  intro g hg
  simpa using h.nonempty g hg

end

/-! ## Items in a list or in one text -/

section

variable {items : List String}

theorem items?_list (items : List String) : (Value.list (items.map .text)).items? = some items := by
  rw [Value.items?, List.mapM_map]
  induction items with
  | nil => rfl
  | cons item items ih =>
    rw [List.mapM_cons, ih]
    rfl

/-- a JSON list of strings is a list of texts -/
theorem ofJson_texts (items : List String) :
    Value.ofJson (.list (items.map Config.textJson)) = .list (items.map .text) := by
  rw [Value.ofJson, List.map_map]
  rfl

/-- items without commas, put together with commas, come to the same extensions as the list -/
theorem extensionsOf_join (h : ∀ s ∈ items, ',' ∉ s.toList) :
    extensionsOf (itemsOf (join "," items)) = extensionsOf items := by
  by_cases hne : items = []
  · subst hne
    -- the empty text is one blank item
    rfl
  · rw [itemsOf, show "," = ','.toString from rfl, splitOn_join hne h]

/-- items without commas, put together with commas, come to the same globs as the list -/
theorem globsOf_join (h : ∀ s ∈ items, ',' ∉ s.toList) : globsOf (itemsOf (join "," items)) = globsOf items := by
  by_cases hne : items = []
  · subst hne
    rfl
  · rw [itemsOf, show "," = ','.toString from rfl, splitOn_join hne h]

end

end ImportHarvest.Settings

namespace ImportHarvest.CommandLine.Arguments

open Text Settings

/-! ## Items of an option -/

/-- an option and a setting come to the same globs -/
theorem listed_eq (written : String) : listed written = globsOf (itemsOf written) := rfl

/-- an option and a setting come to the same extensions -/
theorem listedExtensions_eq (written : String) : listedExtensions written = extensionsOf (itemsOf written) := by
  have hitems : (listed written).filterMap normalizeExtension = (itemsOf written).filterMap normalizeExtension :=
    filterMap_normalizeExtension_filter (itemsOf written)
  rw [listedExtensions, hitems, extensionsOf]

theorem overrides_allowedExtensions (a : Arguments) :
    a.overrides.allowedExtensions = (a.value? .extensions).map fun v => extensionsOf (itemsOf v) :=
  congrArg (fun read => (a.value? .extensions).map read) (funext listedExtensions_eq)

end ImportHarvest.CommandLine.Arguments

import ImportHarvest.Text.Blank
import ImportHarvest.Text.Pieces
import Mathlib.Data.List.DropRight
/-!
Texts without blanks at their ends, and texts put together from pieces.

What is left of a text without the blanks at its ends has none there (`tight_trimmed`), and a text that has none there
stays as it is (`trimmed_of_tight`). What pieces are put together to has their characters and the separator's, and no
other (`mem_glue`); pieces that hold no separator are got back from it (`splitOn_join`).
-/

namespace ImportHarvest.Text

/-! ## Blanks at the ends -/

/-- a text that does not start with a blank, and does not end with one -/
structure Tight (s : String) : Prop where
  head : ∀ c ∈ s.toList.head?, isBlank c = false
  last : ∀ c ∈ s.toList.getLast?, isBlank c = false

theorem tight_iff (s : String) : Tight s ↔
    (s.toList.head?.all fun c => !isBlank c) = true ∧ (s.toList.getLast?.all fun c => !isBlank c) = true := by
  simp only [Option.all_eq_true, Bool.not_eq_true']
  exact ⟨fun h => ⟨h.head, h.last⟩, fun h => ⟨h.1, h.2⟩⟩

instance (s : String) : Decidable (Tight s) := decidable_of_iff' _ (tight_iff s)

section

variable {cs text rest : List Char}

/-- blanks are taken off no further than to a character that is none -/
theorem trimEnd_append_cons {c : Char} (hc : isBlank c = false) :
    trimEnd (text ++ c :: rest) = text ++ c :: trimEnd rest := by
  have hsplit : (text ++ c :: rest).reverse = rest.reverse ++ c :: text.reverse := by simp
  rw [trimEnd, trimEnd, hsplit, List.dropWhile_append]
  split
  · rename_i hempty
    rw [List.isEmpty_iff.1 hempty, List.dropWhile_cons_of_neg (by simp [hc])]
    simp
  · simp

theorem trim_prefix (cs : List Char) : trim cs <+: cs.dropWhile isBlank := List.rdropWhile_prefix isBlank _

/-- what is left of a text starts with no blank -/
theorem head_trim (cs : List Char) : ∀ c ∈ (trim cs).head?, isBlank c = false := by
  intro c hc
  have hstart := List.head?_dropWhile_not isBlank cs
  obtain ⟨rest, hrest⟩ := trim_prefix cs
  rw [← hrest, List.head?_append, Option.mem_def.1 hc] at hstart
  exact hstart

/-- what is left of a text ends with no blank -/
theorem last_trim (cs : List Char) : ∀ c ∈ (trim cs).getLast?, isBlank c = false := by
  intro c hc
  obtain ⟨hne, rfl⟩ := List.mem_getLast?_eq_getLast hc
  exact Bool.eq_false_iff.2 (List.rdropWhile_last_not isBlank (cs.dropWhile isBlank) hne)

/-- a text without blanks at its ends is left as it is -/
theorem trim_of_ends (hhead : ∀ c ∈ cs.head?, isBlank c = false) (hlast : ∀ c ∈ cs.getLast?, isBlank c = false) :
    trim cs = cs := by
  have hstart : cs.dropWhile isBlank = cs := by
    cases cs with
    | nil => rfl
    | cons c cs => exact List.dropWhile_cons_of_neg (by simp [hhead c rfl])
  have hend : trimEnd cs = cs := by
    refine (List.rdropWhile_eq_self_iff (p := isBlank)).2 fun hne => ?_
    simp [hlast _ (List.getLast_mem_getLast? hne)]
  rw [trim, hstart, hend]

end

theorem tight_trimmed (s : String) : Tight (trimmed s) := by
  constructor
  · rw [trimmed, String.toList_ofList]
    exact head_trim _
  · rw [trimmed, String.toList_ofList]
    exact last_trim _

theorem trim_of_tight {s : String} (h : Tight s) : trim s.toList = s.toList := trim_of_ends h.head h.last

theorem trimmed_of_tight {s : String} (h : Tight s) : trimmed s = s := by
  rw [trimmed, trim_of_tight h, String.ofList_toList]

theorem trim_trim (cs : List Char) : trim (trim cs) = trim cs := trim_of_ends (head_trim cs) (last_trim cs)

/-! ## Pieces put together -/

theorem pieces_glue {sep : Char} {parts : List (List Char)} (hne : parts ≠ []) (h : ∀ p ∈ parts, sep ∉ p) :
    pieces sep (glue [sep] parts) = parts := by
  induction parts with
  | nil => exact absurd rfl hne
  | cons p parts ih =>
    cases parts with
    | nil => exact pieces_of_not_mem (h p (List.mem_singleton_self p))
    | cons q parts =>
      have hrest := ih (List.cons_ne_nil q parts) fun x hx => h x (List.mem_cons_of_mem p hx)
      rw [glue, List.append_assoc, List.singleton_append, pieces_append, hrest,
        pieces_of_not_mem (h p (List.mem_cons_self ..))]
      rfl

theorem mem_glue {c : Char} {sep : List Char} {parts : List (List Char)} (h : c ∈ glue sep parts) :
    c ∈ sep ∨ ∃ p ∈ parts, c ∈ p := by
  fun_induction glue sep parts with
  | case1 => cases h
  | case2 p => exact .inr ⟨p, List.mem_singleton_self p, h⟩
  | case3 p q ps ih =>
    rcases List.mem_append.1 h with h | h
    · rcases List.mem_append.1 h with h | h
      · exact .inr ⟨p, List.mem_cons_self, h⟩
      · exact .inl h
    · rcases ih h with h | ⟨x, hx, h⟩
      · exact .inl h
      · exact .inr ⟨x, List.mem_cons_of_mem p hx, h⟩

theorem intercalate_eq_join (sep : String) (parts : List String) : sep.intercalate parts = join sep parts := by
  have hglue (sep : List Char) (parts : List (List Char)) : glue sep parts = sep.intercalate parts := by
    fun_induction glue sep parts with
    | case1 => rfl
    | case2 p => rw [List.intercalate_singleton]
    | case3 p q ps ih => rw [ih, List.intercalate_cons_cons]
  rw [join, hglue, ← String.toList_intercalate, String.ofList_toList]

/-- strings that hold no separator are got back from what they are put together to -/
theorem splitOn_join {sep : Char} {parts : List String} (hne : parts ≠ []) (h : ∀ s ∈ parts, sep ∉ s.toList) :
    splitOn sep (join sep.toString parts) = parts := by
  have hsep : sep.toString.toList = [sep] := by simp
  have hparts : ∀ p ∈ parts.map String.toList, sep ∉ p := by
    intro p hp
    obtain ⟨s, hs, rfl⟩ := List.mem_map.1 hp
    exact h s hs
  rw [splitOn, join, hsep, String.toList_ofList, pieces_glue (by simpa using hne) hparts, List.map_map]
  simp

end ImportHarvest.Text

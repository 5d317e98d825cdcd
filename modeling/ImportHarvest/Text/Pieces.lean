/-!
Taking text apart and putting it together: the pieces between separators, a known text at either end, and the first
occurrence of a text. Everything works on lists of characters, and what octets need on lists of anything; the functions on
strings at the end wrap them.
-/

namespace ImportHarvest.Text

section

variable {α : Type} [DecidableEq α]

/-- the pieces between the separators: one more than there are separators, and none of them holds one -/
def pieces (sep : α) : List α → List (List α)
  | [] => [[]]
  | c :: cs =>
    if c = sep then [] :: pieces sep cs
    else match pieces sep cs with
      | [] => [[c]]
      | p :: ps => (c :: p) :: ps

theorem pieces_ne_nil (sep : α) (cs : List α) : pieces sep cs ≠ [] := by
  cases cs with
  | nil => exact List.cons_ne_nil _ _
  | cons c cs =>
    rw [pieces]
    split
    · simp
    · split <;> simp

theorem pieces_of_not_mem {sep : α} {line : List α} (h : sep ∉ line) : pieces sep line = [line] := by
  induction line with
  | nil => rfl
  | cons c line ih =>
    obtain ⟨hc, hl⟩ := List.ne_and_not_mem_of_not_mem_cons h
    rw [pieces, if_neg hc.symm, ih hl]

/-- no piece holds a separator -/
theorem not_mem_of_mem_pieces {sep : α} {text piece : List α} (h : piece ∈ pieces sep text) : sep ∉ piece := by
  induction text generalizing piece with
  | nil => simp_all [pieces]
  | cons c text ih =>
    rw [pieces] at h
    split at h
    · rcases List.mem_cons.1 h with rfl | h
      · exact List.not_mem_nil
      · exact ih h
    · rename_i hc
      cases hp : pieces sep text with
      | nil => exact absurd hp (pieces_ne_nil sep text)
      | cons p ps =>
        rw [hp] at h ih
        rcases List.mem_cons.1 h with rfl | h
        · simpa [Ne.symm hc] using ih (List.mem_cons_self ..)
        · exact ih (List.mem_cons_of_mem _ h)

/-- a text without separators in front adds to the first piece only -/
theorem pieces_append_of_not_mem {sep : α} {front : List α} (h : sep ∉ front) (rest : List α) :
    pieces sep (front ++ rest) = (pieces sep rest).modifyHead (front ++ ·) := by
  induction front with
  | nil =>
    rw [List.nil_append]
    cases pieces sep rest <;> rfl
  | cons c front ih =>
    obtain ⟨hc, hf⟩ := List.ne_and_not_mem_of_not_mem_cons h
    rw [List.cons_append, pieces, if_neg hc.symm, ih hf]
    cases hp : pieces sep rest with
    | nil => exact absurd hp (pieces_ne_nil sep rest)
    | cons p ps => rfl

/-- pieces of two texts with a separator between them -/
theorem pieces_append {sep : α} (a b : List α) : pieces sep (a ++ sep :: b) = pieces sep a ++ pieces sep b := by
  induction a with
  | nil => simp [pieces]
  | cons c a ih =>
    rw [List.cons_append, pieces, pieces, ih]
    split
    · rfl
    · cases hp : pieces sep a with
      | nil => exact absurd hp (pieces_ne_nil sep a)
      | cons p ps => rfl

end

/-- pieces put together again, with `sep` between each two -/
def glue (sep : List Char) : List (List Char) → List Char
  | [] => []
  | [p] => p
  | p :: q :: ps => p ++ sep ++ glue sep (q :: ps)

/-- the first piece as it is, and each other one behind a separator -/
theorem glue_cons (sep p : List Char) (ps : List (List Char)) : glue sep (p :: ps) = p ++ ps.flatMap (sep ++ ·) := by
  induction ps generalizing p with
  | nil => rw [glue, List.flatMap_nil, List.append_nil]
  | cons q ps ih => rw [glue, ih, List.flatMap_cons, List.append_assoc, List.append_assoc]

theorem glue_pieces (sep : Char) (cs : List Char) : glue [sep] (pieces sep cs) = cs := by
  induction cs with
  | nil => rfl
  | cons c cs ih =>
    rw [pieces]
    cases hp : pieces sep cs with
    | nil => exact absurd hp (pieces_ne_nil sep cs)
    | cons p ps =>
      rw [hp] at ih
      split
      · rename_i hc
        rw [glue, ih, hc]
        rfl
      · cases ps with
        | nil => rw [glue] at ih ⊢; rw [ih]
        | cons q qs => rw [glue] at ih ⊢; rw [List.cons_append, List.cons_append, ih]

theorem glue_concat (sep : List Char) {parts : List (List Char)} (h : parts ≠ []) (last : List Char) :
    glue sep (parts ++ [last]) = glue sep parts ++ sep ++ last := by
  obtain ⟨p, ps, rfl⟩ := List.exists_cons_of_ne_nil h
  rw [List.cons_append, glue_cons, glue_cons, List.flatMap_append, List.flatMap_singleton, List.append_assoc,
    List.append_assoc]

/-- what follows `start`, when the text starts with it -/
def dropStart? {α : Type} [DecidableEq α] : (start text : List α) → Option (List α)
  | [], cs => some cs
  | _ :: _, [] => none
  | p :: ps, c :: cs => if p = c then dropStart? ps cs else none

theorem dropStart?_eq_some {α : Type} [DecidableEq α] {start text rest : List α} :
    dropStart? start text = some rest ↔ start ++ rest = text := by
  induction start generalizing text with
  | nil => simp [dropStart?, eq_comm]
  | cons p ps ih =>
    cases text with
    | nil => simp [dropStart?]
    | cons c cs =>
      by_cases hp : p = c
      · simp [dropStart?, hp, ih]
      · simp [dropStart?, hp]

/-- what stands before `ending`, when the text ends with it -/
def dropEnd? (ending text : List Char) : Option (List Char) :=
  (dropStart? ending.reverse text.reverse).map List.reverse

/-- what stands before and after the first occurrence of `mark` -/
def splitAtFirst? (mark : List Char) : List Char → Option (List Char × List Char)
  | [] => if mark = [] then some ([], []) else none
  | c :: cs =>
    match dropStart? mark (c :: cs) with
    | some rest => some ([], rest)
    | none => (splitAtFirst? mark cs).map fun (before, after) => (c :: before, after)

/-- the strings between the separators -/
def splitOn (sep : Char) (s : String) : List String := (pieces sep s.toList).map String.ofList

/-- the strings put together, with `sep` between each two -/
def join (sep : String) (parts : List String) : String :=
  String.ofList (glue sep.toList (parts.map String.toList))

/-- whether the string starts with `start` -/
def startsWith (start s : String) : Bool := (dropStart? start.toList s.toList).isSome

/-- whether the string ends with `ending` -/
def endsWith (ending s : String) : Bool := (dropEnd? ending.toList s.toList).isSome

theorem endsWith_iff {ending s : String} : endsWith ending s = true ↔ ending.toList <:+ s.toList := by
  rw [endsWith, dropEnd?, Option.isSome_map, Option.isSome_iff_exists, ← List.reverse_prefix]
  exact exists_congr fun _ => dropStart?_eq_some

/-- the string with every `old` replaced by `new` -/
def replace (old new : Char) (s : String) : String :=
  String.ofList (s.toList.map fun c => if c = old then new else c)

end ImportHarvest.Text

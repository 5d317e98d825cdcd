import ImportHarvest.Imports
import ImportHarvest.Proofs.Insertions
/-!
Imports of texts that are put together.

One pass over a text finds the names that its lines import, each line by itself (`scanImports_eq_lines`): an import
statement takes up nothing beyond its line, and a name is looked for again at the next one. So texts with a line feed
between them import what each of them does, in order (`scanImports_append`), and with repeats left out the names are the
first-seen union of theirs (`NameSet.toList_ofList`, `eraseDups_flatMap`).
-/

namespace ImportHarvest

open Text

/-! ## Lines -/

namespace Text

section

variable {sep : Char}

/-- a text is one line, or a line and what follows it -/
theorem line_cases (cs : List Char) : '\n' ∉ cs ∨ ∃ line rest, '\n' ∉ line ∧ cs = line ++ '\n' :: rest := by
  by_cases h : '\n' ∈ cs
  · obtain ⟨line, rest, rfl, hl⟩ := List.eq_append_cons_of_mem h
    exact .inr ⟨line, rest, hl, rfl⟩
  · exact .inl h

/-- a text that is looked for at the start of a line is not found across its end -/
theorem dropStart?_line {start line rest : List Char} (hs : sep ∉ start) :
    dropStart? start (line ++ sep :: rest) = (dropStart? start line).map (· ++ sep :: rest) := by
  induction start generalizing line with
  | nil => simp [dropStart?]
  | cons p ps ih =>
    obtain ⟨hp, hps⟩ := List.ne_and_not_mem_of_not_mem_cons hs
    cases line with
    | nil => simp [dropStart?, hp.symm]
    | cons c cs =>
      rw [List.cons_append, dropStart?, dropStart?, ih hps]
      split <;> rfl

end

end Text

/-! ## Statements -/

/-- word characters, up to the first that is none, are the leading word -/
theorem leadingWord_append {name rest : List Char} (hw : ∀ c ∈ name, isWord c = true)
    (hl : ∀ c ∈ rest.head?, isWord c = false) : leadingWord (name ++ rest) = name := by
  have hrest : rest.takeWhile isWord = [] := by
    cases rest with
    | nil => rfl
    | cons c rest => rw [List.takeWhile_cons, hl c rfl]; rfl
  rw [leadingWord, List.takeWhile_append_of_pos hw, hrest, List.append_nil]

/-- a name is given when it stands behind the start, and is all the word characters there -/
theorem nameAfter_eq_some_iff {cs start name : List Char} {taken : Nat} :
    nameAfter cs start = some (name, taken) ↔
      ∃ rest, cs = start ++ (name ++ rest) ∧ name ≠ [] ∧ (∀ c ∈ name, isWord c = true) ∧
        (∀ c ∈ rest.head?, isWord c = false) ∧ taken = start.length + name.length := by
  unfold nameAfter
  constructor
  · intro h
    cases hd : dropStart? start cs with
    | none => rw [hd] at h; cases h
    | some after =>
      rw [hd] at h
      dsimp only at h
      split at h
      · cases h
      · rename_i hne
        cases h
        refine ⟨after.dropWhile isWord, ?_, hne, List.all_eq_true.1 List.all_takeWhile, ?_, rfl⟩
        · rw [leadingWord, List.takeWhile_append_dropWhile, dropStart?_eq_some.1 hd]
        · intro c hc
          have hhead := List.head?_dropWhile_not isWord after
          rw [Option.mem_def.1 hc] at hhead
          exact hhead
  · rintro ⟨rest, hcs, hne, hw, hl, rfl⟩
    rw [dropStart?_eq_some.2 hcs.symm]
    dsimp only
    rw [leadingWord_append hw hl, if_neg hne]

theorem leadingWord_line (line rest : List Char) : leadingWord (line ++ '\n' :: rest) = leadingWord line := by
  have hn : isWord '\n' = false := by decide
  unfold leadingWord
  induction line with
  | nil => rw [List.nil_append, List.takeWhile_cons, hn]; rfl
  | cons c cs ih => rw [List.cons_append, List.takeWhile_cons, List.takeWhile_cons, ih]

theorem nameAfter_line {start : List Char} (hs : '\n' ∉ start) (line rest : List Char) :
    nameAfter (line ++ '\n' :: rest) start = nameAfter line start := by
  unfold nameAfter
  rw [dropStart?_line hs]
  cases dropStart? start line with
  | none => rfl
  | some after => rw [Option.map_some]; simp only [leadingWord_line]

/-- an import statement stands in one line -/
theorem importAt_line (line rest : List Char) : importAt (line ++ '\n' :: rest) = importAt line := by
  have hi : '\n' ∉ "import ".toList := by decide
  have hf : '\n' ∉ "from ".toList := by decide
  simp only [importAt, importStarts, List.findSome?_cons, nameAfter_line hi, nameAfter_line hf, List.findSome?_nil]

/-- an import statement takes up no more than there is -/
theorem taken_le_length {line name : List Char} {taken : Nat} (h : importAt line = some (name, taken)) :
    taken ≤ line.length := by
  obtain ⟨start, -, hs⟩ := List.exists_of_findSome?_eq_some h
  obtain ⟨rest, hline, -, -, -, rfl⟩ := nameAfter_eq_some_iff.1 hs
  rw [hline, List.length_append, List.length_append]
  omega

/-- what follows a line: the end of the text, or a line feed -/
def LineEnd (after : List Char) : Prop := after = [] ∨ ∃ rest, after = '\n' :: rest

theorem importAt_append {after : List Char} (ha : LineEnd after) (line : List Char) :
    importAt (line ++ after) = importAt line := by
  rcases ha with rfl | ⟨rest, rfl⟩
  · rw [List.append_nil]
  · exact importAt_line line rest

/-! ## Texts -/

/-- inside a line nothing is found -/
theorem scanImports_false_append {line : List Char} (h : '\n' ∉ line) (after : List Char) :
    scanImports false (line ++ after) = scanImports false after := by
  induction line with
  | nil => rw [List.nil_append]
  | cons c line ih =>
    obtain ⟨hc, hl⟩ := List.ne_and_not_mem_of_not_mem_cons h
    rw [List.cons_append, scanImports]
    simp only [Bool.false_eq_true, if_false, hc.symm, decide_false]
    exact ih hl

/-- at the start of a line at most one name is found, then nothing up to its end -/
theorem scanImports_line {line after : List Char} (h : '\n' ∉ line) (ha : LineEnd after) :
    scanImports true (line ++ after) = (lineImport line).toList ++ scanImports false after := by
  cases line with
  | nil =>
    rcases ha with rfl | ⟨rest, rfl⟩
    · rw [List.append_nil, scanImports, scanImports]
      rfl
    · have hnone : importAt ('\n' :: rest) = none := importAt_line [] rest
      rw [List.nil_append, scanImports, scanImports]
      simp only [hnone, if_true, if_false, Bool.false_eq_true]
      rfl
  | cons c line =>
    obtain ⟨hc, hl⟩ := List.ne_and_not_mem_of_not_mem_cons h
    have hi : importAt (c :: (line ++ after)) = importAt (c :: line) := importAt_append ha (c :: line)
    rw [List.cons_append, scanImports]
    simp only [if_true, hi]
    cases hm : importAt (c :: line) with
    | none =>
      simp only [lineImport, hm, hc.symm, decide_false]
      exact scanImports_false_append hl after
    | some found =>
      -- the scan goes on behind the name, which is still inside the line
      obtain ⟨name, taken⟩ := found
      have ht : taken - 1 ≤ line.length := by
        have := taken_le_length hm
        rw [List.length_cons] at this
        omega
      simp only [lineImport, hm]
      rw [List.drop_append_of_le_length ht, scanImports_false_append (fun hd => hl (List.mem_of_mem_drop hd))]
      rfl

/-- **One pass finds the names of the lines**, one after the other -/
theorem scanImports_eq_lines (cs : List Char) : scanImports true cs = (pieces '\n' cs).filterMap lineImport := by
  rcases line_cases cs with hl | ⟨line, rest, hl, rfl⟩
  · have h := scanImports_line hl (.inl rfl)
    rw [List.append_nil, scanImports, List.append_nil] at h
    rw [h, pieces_of_not_mem hl]
    cases hi : lineImport cs <;> simp [hi]
  · have hrest : scanImports false ('\n' :: rest) = scanImports true rest := by
      rw [scanImports]
      simp
    rw [scanImports_line hl (.inr ⟨rest, rfl⟩), hrest, scanImports_eq_lines rest, pieces_append, pieces_of_not_mem hl]
    cases hi : lineImport line <;> simp [hi]
termination_by cs.length

/-- texts with a line feed between them import what each of them does -/
theorem scanImports_append (a b : List Char) :
    scanImports true (a ++ '\n' :: b) = scanImports true a ++ scanImports true b := by
  rw [scanImports_eq_lines, scanImports_eq_lines, scanImports_eq_lines, pieces_append, List.filterMap_append]

theorem scanImports_blank (cs : List Char) : scanImports true ('\n' :: cs) = scanImports true cs := by
  have h := scanImports_append [] cs
  rwa [List.nil_append, scanImports_eq_lines [], show (pieces '\n' []).filterMap lineImport = [] from rfl,
    List.nil_append] at h

/-! ## Names without repeats -/

/-- the modules of a text -/
theorem toList_harvest (text : String) :
    (harvest text).toList = ((scanImports true text.toList).map String.ofList).eraseDups := NameSet.toList_ofList _

section

variable {α : Type} [BEq α] [LawfulBEq α]

theorem eraseDups_filter (keep : α → Bool) (l : List α) : (l.filter keep).eraseDups = l.eraseDups.filter keep := by
  match l with
  | [] => rfl
  | a :: as =>
    have hl : (as.filter fun b => !b == a).length < as.length + 1 := Nat.lt_succ_of_le (List.length_filter_le _ as)
    have hc : ((as.filter fun b => !b == a).filter keep) = (as.filter keep).filter fun b => !b == a := by
      rw [List.filter_filter, List.filter_filter]
      simp only [Bool.and_comm]
    rw [List.eraseDups_cons, List.filter_cons, List.filter_cons, ← eraseDups_filter keep (as.filter fun b => !b == a), hc]
    by_cases hk : keep a = true
    · rw [if_pos hk, if_pos hk, List.eraseDups_cons]
    · have hno : ((as.filter keep).filter fun b => !b == a) = as.filter keep := by
        rw [List.filter_eq_self]
        intro b hb
        have hne : b ≠ a := fun e => hk (e ▸ (List.mem_filter.1 hb).2)
        simpa using hne
      rw [if_neg hk, if_neg hk, hno]
termination_by l.length

theorem eraseDups_eraseDups (l : List α) : l.eraseDups.eraseDups = l.eraseDups := by
  match l with
  | [] => rfl
  | a :: as =>
    have hl : (as.filter fun b => !b == a).length < as.length + 1 := Nat.lt_succ_of_le (List.length_filter_le _ as)
    rw [List.eraseDups_cons, List.eraseDups_cons, eraseDups_filter, eraseDups_eraseDups (as.filter fun b => !b == a),
      ← eraseDups_filter, List.filter_filter]
    simp only [Bool.and_self]
termination_by l.length

/-- repeats may be left out of the parts first -/
theorem eraseDups_flatMap {β : Type} (f : β → List α) (xs : List β) :
    (xs.flatMap fun x => (f x).eraseDups).eraseDups = (xs.flatMap f).eraseDups := by
  induction xs with
  | nil => rfl
  | cons x xs ih =>
    have hr (l : List α) : l.removeAll (f x).eraseDups = l.removeAll (f x) := by
      simp [List.removeAll]
    rw [List.flatMap_cons, List.flatMap_cons, List.eraseDups_append, List.eraseDups_append, eraseDups_eraseDups, hr]
    unfold List.removeAll
    rw [eraseDups_filter, eraseDups_filter, ih]

end

end ImportHarvest

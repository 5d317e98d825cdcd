import ImportHarvest.Proofs.Imports
/-!
The names that a text imports, as a search finds them and line by line.

A text imports a name where it stands when it starts with the start of a statement and goes on with the name, which ends
before the first character that is no word character (`ImportsName`). A search goes through a whole text: it stops
wherever a line starts with such a statement, and goes on behind the name (`Finds`). It finds what one pass over the
text gives (`finds_iff`), and that is what the lines of the text import, each looked at by itself: no statement is found
across the end of a line, and no second one in the same line (`search_reads_line_by_line`).
-/

namespace ImportHarvest

open Text

/-! ## Statements -/

/-- the text starts with a statement that imports this name, and goes on with `rest` behind the name -/
structure ImportsName (cs name rest : List Char) : Prop where
  starts : ∃ start ∈ ["import ".toList, "from ".toList], cs = start ++ (name ++ rest)
  named : name ≠ []
  word : ∀ c ∈ name, isWord c = true
  longest : ∀ c ∈ rest.head?, isWord c = false

/-- no text starts in both ways -/
theorem nameAfter_import_of_from (cs : List Char) : nameAfter ("from ".toList ++ cs) "import ".toList = none := rfl

/-- one look at a text finds the statement that it starts with -/
theorem importAt_eq_some_iff {cs name : List Char} {taken : Nat} :
    importAt cs = some (name, taken) ↔ ∃ rest, ImportsName cs name rest ∧ taken + rest.length = cs.length := by
  constructor
  · intro h
    obtain ⟨start, hs, hn⟩ := List.exists_of_findSome?_eq_some h
    obtain ⟨rest, hcs, hne, hw, hl, rfl⟩ := nameAfter_eq_some_iff.1 hn
    refine ⟨rest, ⟨⟨start, hs, hcs⟩, hne, hw, hl⟩, ?_⟩
    rw [hcs, List.length_append, List.length_append, Nat.add_assoc]
  · rintro ⟨rest, ⟨⟨start, hs, hcs⟩, hne, hw, hl⟩, ht⟩
    have htaken : taken = start.length + name.length := by
      rw [hcs, List.length_append, List.length_append] at ht
      omega
    have hn : nameAfter cs start = some (name, taken) := nameAfter_eq_some_iff.2 ⟨rest, hcs, hne, hw, hl, htaken⟩
    rw [importAt, importStarts, List.findSome?_cons, List.findSome?_cons, List.findSome?_nil]
    rcases List.mem_cons.1 hs with rfl | hs
    · rw [hn]
    · obtain rfl := List.mem_singleton.1 hs
      rw [hcs, nameAfter_import_of_from, ← hcs, hn]

/-- a line imports a name when it is a statement that does -/
theorem lineImport_eq_some_iff {line name : List Char} :
    lineImport line = some name ↔ ∃ rest, ImportsName line name rest := by
  rw [lineImport, Option.map_eq_some_iff]
  constructor
  · rintro ⟨⟨name, taken⟩, h, rfl⟩
    obtain ⟨rest, hi, -⟩ := importAt_eq_some_iff.1 h
    exact ⟨rest, hi⟩
  · rintro ⟨rest, hi⟩
    obtain ⟨start, -, hcs⟩ := hi.starts
    refine ⟨(name, line.length - rest.length), importAt_eq_some_iff.2 ⟨rest, hi, ?_⟩, rfl⟩
    rw [hcs, List.length_append, List.length_append]
    omega

/-! ## Searches -/

/-- whether a line starts behind this character: at the start of a text, and behind a line feed -/
def LineStart (before : Option Char) : Prop := before = none ∨ before = some '\n'

instance (before : Option Char) : Decidable (LineStart before) := inferInstanceAs (Decidable (_ ∨ _))

/-- a search through a text, which stands behind the character `before`, finds these names: it stops at the first place
where a line starts with a statement, takes its name, and goes on behind the name -/
inductive Finds : Option Char → List Char → List (List Char) → Prop where
  | done {before : Option Char} : Finds before [] []
  | hit {before : Option Char} {cs name rest : List Char} {names : List (List Char)} :
    LineStart before → ImportsName cs name rest → Finds name.getLast? rest names → Finds before cs (name :: names)
  | miss {before : Option Char} {c : Char} {cs : List Char} {names : List (List Char)} :
    (LineStart before → ∀ name rest, ¬ ImportsName (c :: cs) name rest) → Finds (some c) cs names →
      Finds before (c :: cs) names

/-- behind a name no line starts -/
theorem ImportsName.not_lineStart {cs name rest : List Char} (h : ImportsName cs name rest) :
    decide (LineStart name.getLast?) = false := by
  rw [decide_eq_false_iff_not]
  rintro (hnone | hfeed)
  · exact h.named (List.getLast?_eq_none_iff.1 hnone)
  · have hw := h.word '\n' (List.mem_of_getLast? hfeed)
    exact absurd hw (by decide)

/-- one pass takes the name of a statement that a line starts with, and goes on behind it -/
theorem scanImports_of_importsName {cs name rest : List Char} (h : ImportsName cs name rest) :
    scanImports true cs = name :: scanImports false rest := by
  obtain ⟨start, hs, hcs⟩ := h.starts
  have hstart : start ≠ [] := by
    rintro rfl
    exact absurd hs (by decide)
  obtain ⟨c, front, rfl⟩ := List.exists_cons_of_ne_nil hstart
  subst hcs
  have hi : importAt (c :: front ++ (name ++ rest)) = some (name, (c :: front).length + name.length) := by
    refine importAt_eq_some_iff.2 ⟨rest, h, ?_⟩
    rw [List.length_append, List.length_append, Nat.add_assoc]
  have hdrop : (front ++ (name ++ rest)).drop ((c :: front).length + name.length - 1) = rest := by
    rw [← List.append_assoc, List.length_cons, Nat.add_right_comm, Nat.add_sub_cancel, ← List.length_append,
      List.drop_left]
  rw [List.cons_append] at hi ⊢
  rw [scanImports, if_pos rfl, hi]
  dsimp only
  rw [hdrop]

/-- elsewhere one pass goes on with the next character -/
theorem scanImports_of_not_importsName {before : Option Char} {c : Char} {cs : List Char}
    (h : LineStart before → ∀ name rest, ¬ ImportsName (c :: cs) name rest) :
    scanImports (decide (LineStart before)) (c :: cs) = scanImports (decide (LineStart (some c))) cs := by
  have hnone : (if decide (LineStart before) = true then importAt (c :: cs) else none) = none := by
    by_cases hb : LineStart before
    · rw [if_pos (decide_eq_true hb)]
      refine Option.eq_none_iff_forall_not_mem.2 fun ⟨name, taken⟩ hm => ?_
      obtain ⟨rest, hi, -⟩ := importAt_eq_some_iff.1 hm
      exact h hb name rest hi
    · rw [decide_eq_false hb, if_neg Bool.false_ne_true]
  have hc : decide (LineStart (some c)) = decide (c = '\n') := by simp [LineStart]
  rw [scanImports, hnone, hc]

/-- a statement is longer than what follows its name -/
theorem ImportsName.rest_lt {cs name rest : List Char} (h : ImportsName cs name rest) : rest.length < cs.length := by
  obtain ⟨start, -, hcs⟩ := h.starts
  have hname := List.length_pos_iff.2 h.named
  rw [hcs, List.length_append, List.length_append]
  omega

/-- what one pass gives can be found -/
theorem finds_scanImports (before : Option Char) (cs : List Char) :
    Finds before cs (scanImports (decide (LineStart before)) cs) := by
  match cs with
  | [] =>
    rw [scanImports]
    exact .done
  | c :: cs =>
    by_cases hi : LineStart before ∧ ∃ name rest, ImportsName (c :: cs) name rest
    · obtain ⟨hb, name, rest, hi⟩ := hi
      have hlt := hi.rest_lt
      have hrest := finds_scanImports name.getLast? rest
      rw [hi.not_lineStart] at hrest
      rw [decide_eq_true hb, scanImports_of_importsName hi]
      exact .hit hb hi hrest
    · have hno : LineStart before → ∀ name rest, ¬ ImportsName (c :: cs) name rest :=
        fun hb name rest h => hi ⟨hb, name, rest, h⟩
      rw [scanImports_of_not_importsName hno]
      exact .miss hno (finds_scanImports (some c) cs)
termination_by cs.length
decreasing_by
  · exact hlt
  · exact Nat.lt_succ_self _

/-- **A search finds what one pass gives**, and nothing else -/
theorem finds_iff {before : Option Char} {cs : List Char} {names : List (List Char)} :
    Finds before cs names ↔ names = scanImports (decide (LineStart before)) cs := by
  constructor
  · intro h
    induction h with
    | done => rw [scanImports]
    | hit hb hi _ ih => rw [decide_eq_true hb, scanImports_of_importsName hi, ih, hi.not_lineStart]
    | miss hno _ ih => rw [scanImports_of_not_importsName hno, ih]
  · rintro rfl
    exact finds_scanImports before cs

/-! ## Line by line -/

/-- **A search reads line by line.** Through any text a search finds one list of names: those that its lines import, in
order, and the modules of the text are these names, each where it was first seen. The lines are the pieces between line
feeds, and no other character ends one; a line imports a name exactly when it begins with `import ` or `from ` and goes
on with at least one word character, and the name is all the word characters that stand there. -/
theorem search_reads_line_by_line (text : String) :
    (∀ names, Finds none text.toList names ↔ names = (pieces '\n' text.toList).filterMap lineImport) ∧
      (harvest text).toList = (lineByLine text).eraseDups ∧
      (glue ['\n'] (pieces '\n' text.toList) = text.toList ∧ ∀ line ∈ pieces '\n' text.toList, '\n' ∉ line) ∧
      ∀ line name, lineImport line = some name ↔ ∃ rest, ImportsName line name rest := by
  refine ⟨fun names => ?_, ?_, ⟨glue_pieces _ _, fun line => not_mem_of_mem_pieces⟩,
    fun line name => lineImport_eq_some_iff⟩
  · rw [finds_iff, decide_eq_true (.inl rfl), scanImports_eq_lines]
  · rw [toList_harvest, scanImports_eq_lines, lineByLine]

/-- lines that import nothing: indented, with a tab or two blanks, relative, behind a carriage return or a byte order
mark -/
example : lineByLine (" import a\nimport\tb\nimport  c\nfrom .d import e\n\rimport f\n\uFEFFimport g\n" ++
    "from h.i import j\r") = ["h"] := by decide

end ImportHarvest

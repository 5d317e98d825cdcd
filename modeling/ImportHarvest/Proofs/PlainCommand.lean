import ImportHarvest.Proofs.ImportLines
import ImportHarvest.Proofs.Trimmed
/-!
The install command is plain words, whatever text its modules come from.

A name that a text imports is a run of word characters. No word character is a blank or has a meaning in a shell
(`not_isWord_of_isBlank`, `not_isWord_of_shellMarks`), so such a name is a `PlainName` (`plainName_of_harvest`), and the
blanks of a command are those between its words: cut at them, it gives the names back (`command_of_plain_words`).
-/

namespace ImportHarvest

namespace Text

/-! ## Characters -/

/-- what a shell may take for something else than a part of a word: all marks of ASCII but for the underscore, and the
quotation marks and dashes that some shells read like those of ASCII -/
def shellMarks : List Char := "!\"#$%&'()*+,-./:;<=>?@[\\]^`\x7b|\x7d~‘’‚‛“”„–—―".toList

/-- the code points of blanks -/
def blankPoints : List Nat :=
  [9, 10, 11, 12, 13, 0x20, 0x85, 0xA0, 0x1680, 0x2000, 0x2001, 0x2002, 0x2003, 0x2004, 0x2005, 0x2006, 0x2007, 0x2008,
    0x2009, 0x200A, 0x2028, 0x2029, 0x202F, 0x205F, 0x3000]

theorem mem_blankPoints {c : Char} (h : isBlank c = true) : c.toNat ∈ blankPoints := by
  simp only [isBlank, Bool.or_eq_true, Bool.and_eq_true, decide_eq_true_eq, beq_iff_eq] at h
  simp only [blankPoints, List.mem_cons, List.not_mem_nil, or_false]
  omega

theorem not_isWord_of_blankPoints : ∀ n ∈ blankPoints, isWord (Char.ofNat n) = false := by decide +kernel

section

variable {c : Char}

theorem not_isWord_of_shellMarks (h : c ∈ shellMarks) : isWord c = false := by
  have hall : (shellMarks.all fun c => !isWord c) = true := by decide +kernel
  have hc := List.all_eq_true.1 hall c h
  rwa [Bool.not_eq_true'] at hc

theorem not_isWord_of_isBlank (h : isBlank c = true) : isWord c = false := by
  have hc := not_isWord_of_blankPoints c.toNat (mem_blankPoints h)
  rwa [Char.ofNat_toNat] at hc

/-- a word character of ASCII is a letter, a digit or the underscore -/
theorem ascii_of_isWord (h : isWord c = true) (hc : c.toNat < 0x80) : c.isAlphanum = true ∨ c = '_' := by
  rwa [isWord, if_pos hc, isPlainWord, Bool.or_eq_true, beq_iff_eq] at h

end

end Text

open Text

/-! ## Names -/

/-- a name that stands for itself on a command line: one word, and no option -/
structure PlainName (name : String) : Prop where
  named : name ≠ ""
  word : ∀ c ∈ name.toList, isWord c = true
  ascii : ∀ c ∈ name.toList, c.toNat < 0x80 → c.isAlphanum = true ∨ c = '_'
  blank : ∀ c ∈ name.toList, isBlank c = false
  mark : ∀ c ∈ name.toList, c ∉ shellMarks
  option : name.toList.head? ≠ some '-'

/-- word characters make a plain name -/
theorem plainName_of_word {name : String} (hne : name ≠ "") (hw : ∀ c ∈ name.toList, isWord c = true) :
    PlainName name where
  named := hne
  word := hw
  ascii := fun c hc => ascii_of_isWord (hw c hc)
  blank := by
    intro c hc
    refine Bool.eq_false_iff.2 fun hb => ?_
    cases (hw c hc).symm.trans (not_isWord_of_isBlank hb)
  mark := by
    intro c hc hm
    cases (hw c hc).symm.trans (not_isWord_of_shellMarks hm)
  option := by
    intro hdash
    cases (hw '-' (List.mem_of_head? hdash)).symm.trans (not_isWord_of_shellMarks (by decide))

/-- the modules of a text are runs of word characters -/
theorem plainName_of_harvest {text name : String} (h : name ∈ (harvest text).toList) : PlainName name := by
  rw [toList_harvest, List.mem_eraseDups, scanImports_eq_lines, List.mem_map] at h
  obtain ⟨word, hword, rfl⟩ := h
  obtain ⟨line, -, hline⟩ := List.mem_filterMap.1 hword
  obtain ⟨rest, hi⟩ := lineImport_eq_some_iff.1 hline
  refine plainName_of_word ?_ ?_
  · rw [Ne, String.ofList_eq_empty_iff]
    exact hi.named
  · rw [String.toList_ofList]
    exact hi.word

/-! ## Commands -/

/-- **An install command is plain words.** Whatever a text holds, the command for its modules is `pip install ` and a
list of words with one blank between each two: the modules, in order and without repeats, so that the list is empty when
there is none and otherwise is cut into them at its blanks. Each of them is plain: word characters and at least one, so
no blank, no quote and no other mark of a shell, and no dash in front. The whole command has no other characters than
word characters and blanks. -/
theorem command_of_plain_words (text : String) :
    (∃ list, installCommand (harvest text) = "pip install " ++ list ∧
      (list = "" ∧ (harvest text).toList = [] ∨
        (harvest text).toList ≠ [] ∧ splitOn ' ' list = (harvest text).toList)) ∧
    (harvest text).toList.Nodup ∧ (∀ name ∈ (harvest text).toList, PlainName name) ∧
    ∀ c ∈ (installCommand (harvest text)).toList, c = ' ' ∨ isWord c = true := by
  have hplain : ∀ name ∈ (harvest text).toList, PlainName name := fun name => plainName_of_harvest
  have hblank : ∀ name ∈ (harvest text).toList, ' ' ∉ name.toList := by
    intro name hname hmem
    cases ((hplain name hname).blank ' ' hmem).symm.trans (show isBlank ' ' = true by decide)
  refine ⟨⟨" ".intercalate (harvest text).toList, rfl, ?_⟩, (harvest text).nodup, hplain, ?_⟩
  · by_cases hne : (harvest text).toList = []
    · exact .inl ⟨by rw [hne]; rfl, hne⟩
    · exact .inr ⟨hne, by rw [intercalate_eq_join]; exact splitOn_join hne hblank⟩
  · intro c hc
    rw [installCommand, intercalate_eq_join, String.toList_append, join, String.toList_ofList] at hc
    rcases List.mem_append.1 hc with hc | hc
    · have hstart : (installStart.toList.all fun c => c = ' ' || isWord c) = true := by decide
      simpa using List.all_eq_true.1 hstart c hc
    · rcases mem_glue hc with hc | ⟨word, hword, hc⟩
      · exact .inl (List.mem_singleton.1 hc)
      · obtain ⟨name, hname, rfl⟩ := List.mem_map.1 hword
        exact .inr ((hplain name hname).word c hc)

end ImportHarvest

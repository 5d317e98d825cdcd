import ImportHarvest.Proofs.VariableGrammar
/-!
Texts that variables do not keep.

A text without blanks at its ends is kept as it is, unless all of it is the written form of another value: a truth word,
a number, a quoted text, a quoted character, a list or a table (`ofVariable_eq_text_iff`).
-/

namespace ImportHarvest.Settings

open Text

/-- a text is from its first character to its last the written form of a value, which is another one than the text -/
inductive Written : List Char → Value → Prop
  | yes : Written "true".toList (.truth true)
  | no : Written "false".toList (.truth false)
  | fraction {cs : List Char} (hpoint : '.' ∈ cs) (h : (floatLiteral? cs).isSome) : Written cs .other
  | natural {cs : List Char} {n : Nat} (h : natLiteral? cs = some n) (hn : n < UInt64.size) : Written cs (.whole n)
  | integer {cs : List Char} {n : Int} (h : intLiteral? cs = some n) (hn : isSigned64 n = true) : Written cs (.whole n)
  | quoted {body s : List Char} (h : quotedBody body = some (s, [])) : Written ('"' :: body) (.text (String.ofList s))
  | char (c : Char) : Written ['\'', c, '\''] (.char c)
  | list {body : List Char} {vs : List Value} (h : ReadsItems body vs []) : Written ('[' :: body) (.list vs)
  | table {body : List Char} {es : Table} (h : ReadsPairs body es []) : Written ('\x7b' :: body) (.table es)

/-! ## Characters of numbers -/

section

variable {c : Char} {cs ds : List Char}

/-- the characters that numbers are written by -/
def isNumeric (c : Char) : Bool := c.isDigit || ['+', '-', '.', 'e', 'E'].contains c

theorem ne_of_numeric (h : isNumeric c = true) {x : Char} (hx : isNumeric x = false) : c ≠ x := by
  rintro rfl
  rw [h] at hx
  cases hx

theorem isDigit_bounds (h : c.isDigit = true) : 48 ≤ c.toNat ∧ c.toNat ≤ 57 := by
  simpa [Char.isDigit, UInt32.le_iff_toNat_le] using h

theorem not_blank_of_numeric (h : isNumeric c = true) : isBlank c = false := by
  rcases Bool.or_eq_true_iff.1 h with hdigit | hother
  · obtain ⟨hlow, hhigh⟩ := isDigit_bounds hdigit
    simp [isBlank]
    omega
  · have hall : ∀ x ∈ ['+', '-', '.', 'e', 'E'], isBlank x = false := by simp [isBlank]
    exact hall c (List.contains_iff_mem.1 hother)

theorem not_mark_of_numeric (h : isNumeric c = true) : isEnvMark c = false := by
  have hne : ∀ x, isNumeric x = false → c ≠ x := fun x hx => ne_of_numeric h hx
  simp [isEnvMark, hne ',' (by decide), hne '[' (by decide), hne ']' (by decide), hne '\x7b' (by decide),
    hne '\x7d' (by decide)]

theorem numeric_of_digit (h : c.isDigit = true) : isNumeric c = true := by
  rw [isNumeric, h, Bool.true_or]

theorem allDigits?_eq_some_iff : allDigits? cs = some ds ↔ cs ≠ [] ∧ (∀ c ∈ cs, c.isDigit = true) ∧ cs = ds := by
  simp [allDigits?, and_assoc]

/-- with its sign off, a number is made of the same characters -/
theorem numeric_of_splitSign (h : ∀ c ∈ (splitSign cs).2, isNumeric c = true) : ∀ c ∈ cs, isNumeric c = true := by
  unfold splitSign at h
  split at h
  · exact List.forall_mem_cons.2 ⟨by decide, h⟩
  · exact List.forall_mem_cons.2 ⟨by decide, h⟩
  · exact h

/-- with its sign off, a whole number is all digits -/
theorem digits_of_intLiteral {n : Int} (h : intLiteral? cs = some n) : ∀ c ∈ (splitSign cs).2, c.isDigit = true := by
  obtain ⟨ds, hds, -⟩ := Option.map_eq_some_iff.1 h
  exact (allDigits?_eq_some_iff.1 hds).2.1

theorem numeric_of_intLiteral {n : Int} (h : intLiteral? cs = some n) : ∀ c ∈ cs, isNumeric c = true :=
  numeric_of_splitSign fun c hc => numeric_of_digit (digits_of_intLiteral h c hc)

/-- a whole number without a minus sign is one with an optional sign -/
theorem intLiteral_of_natLiteral {n : Nat} (h : natLiteral? cs = some n) : intLiteral? cs = some (n : Int) := by
  unfold natLiteral? at h
  split at h
  · obtain ⟨ds, hds, rfl⟩ := Option.map_eq_some_iff.1 h
    simp only [intLiteral?, splitSign, hds, Option.map_some, exponentOf, Bool.false_eq_true, if_false]
  · obtain ⟨ds, hds, rfl⟩ := Option.map_eq_some_iff.1 h
    obtain ⟨-, hdigits, -⟩ := allDigits?_eq_some_iff.1 hds
    have hsign : splitSign cs = (false, cs) := by
      unfold splitSign
      split
      · exact absurd (hdigits '-' (List.mem_cons_self ..)) (by decide)
      · exact absurd (hdigits '+' (List.mem_cons_self ..)) (by decide)
      · rfl
    simp only [intLiteral?, hsign, hds, Option.map_some, exponentOf, Bool.false_eq_true, if_false]

theorem numeric_of_exponent {e : Int} (h : exponent? cs = some e) : ∀ c ∈ cs, isNumeric c = true := by
  obtain ⟨ds, hds, -⟩ := Option.map_eq_some_iff.1 h
  obtain ⟨-, hdigits, -⟩ := allDigits?_eq_some_iff.1 hds
  exact numeric_of_splitSign fun c hc => numeric_of_digit (hdigits c hc)

/-- a text is numeric when it is up to some numeric character, and after it -/
theorem numeric_of_split {p : Char → Bool} (hmark : ∀ c, p c = false → isNumeric c = true)
    (hstart : ∀ c ∈ cs.takeWhile p, isNumeric c = true)
    (hrest : ∀ c ∈ cs.drop ((cs.takeWhile p).length + 1), isNumeric c = true) : ∀ c ∈ cs, isNumeric c = true := by
  have hdrop : cs.drop (cs.takeWhile p).length = cs.dropWhile p := by
    have h := @List.drop_left _ (cs.takeWhile p) (cs.dropWhile p)
    rwa [List.takeWhile_append_dropWhile] at h
  rw [← List.drop_drop, hdrop] at hrest
  intro c hc
  rw [← List.takeWhile_append_dropWhile (p := p) (l := cs), List.mem_append] at hc
  rcases hc with hc | hc
  · exact hstart c hc
  · have hhead := List.head?_dropWhile_not p cs
    cases hd : cs.dropWhile p with
    | nil =>
      rw [hd] at hc
      exact absurd hc List.not_mem_nil
    | cons x rest =>
      rw [hd] at hc hrest hhead
      rcases List.mem_cons.1 hc with rfl | hc
      · exact hmark c hhead
      · exact hrest c hc

/-- digits before and after a point are numeric with it -/
theorem numeric_of_digits {mantissa : List Char}
    (h : allDigits? (mantissa.takeWhile (· ≠ '.') ++ mantissa.drop ((mantissa.takeWhile (· ≠ '.')).length + 1)) =
      some ds) : ∀ c ∈ mantissa, isNumeric c = true := by
  have hpoint : ∀ c : Char, decide (c ≠ '.') = false → isNumeric c = true := by
    intro c hc
    obtain rfl : c = '.' := by simpa using hc
    decide
  obtain ⟨-, hdigits, -⟩ := allDigits?_eq_some_iff.1 h
  refine numeric_of_split hpoint (fun c hc => ?_) (fun c hc => ?_)
  · exact numeric_of_digit (hdigits c (List.mem_append_left _ hc))
  · exact numeric_of_digit (hdigits c (List.mem_append_right _ hc))

theorem numeric_of_decimalLiteral (h : (decimalLiteral? cs).isSome) : ∀ c ∈ cs, isNumeric c = true := by
  have hletter : ∀ c : Char, (decide (c ≠ 'e') && decide (c ≠ 'E')) = false → isNumeric c = true := by
    intro c hc
    rcases Bool.and_eq_false_iff.1 hc with hc | hc
    · obtain rfl : c = 'e' := by simpa using hc
      decide
    · obtain rfl : c = 'E' := by simpa using hc
      decide
  obtain ⟨literal, h⟩ := Option.isSome_iff_exists.1 h
  simp only [decimalLiteral?, Option.bind_eq_bind] at h
  split at h
  · rename_i hrest
    obtain ⟨e, -, h⟩ := Option.bind_eq_some_iff.1 h
    obtain ⟨ds, hds, -⟩ := Option.bind_eq_some_iff.1 h
    refine numeric_of_split hletter (numeric_of_digits hds) ?_
    rw [← List.drop_drop, hrest]
    simp
  · rename_i x rest hrest
    obtain ⟨e, hexponent, h⟩ := Option.bind_eq_some_iff.1 h
    obtain ⟨ds, hds, -⟩ := Option.bind_eq_some_iff.1 h
    refine numeric_of_split hletter (numeric_of_digits hds) ?_
    rw [← List.drop_drop, hrest]
    exact numeric_of_exponent hexponent

theorem mem_splitSign (hpoint : '.' ∈ cs) : '.' ∈ (splitSign cs).2 := by
  unfold splitSign
  split
  · exact List.mem_of_ne_of_mem (by decide) hpoint
  · exact List.mem_of_ne_of_mem (by decide) hpoint
  · exact hpoint

/-- a number with a point is not one of the special names -/
theorem numeric_of_fraction (hpoint : '.' ∈ cs) (h : (floatLiteral? cs).isSome) : ∀ c ∈ cs, isNumeric c = true := by
  simp only [floatLiteral?] at h
  split at h
  · rename_i hspecial
    have hnames : ∀ name ∈ ["inf", "infinity", "nan"], '.' ∉ name.toList := by decide
    have hmem : '.' ∈ (splitSign cs).2.map Char.toLower := List.mem_map.2 ⟨'.', mem_splitSign hpoint, by decide⟩
    have hno := hnames _ (List.contains_iff_mem.1 hspecial)
    rw [String.toList_ofList] at hno
    exact absurd hmem hno
  · exact numeric_of_splitSign (numeric_of_decimalLiteral h)

end

/-! ## Values and their written forms -/

section

variable {cs : List Char} {v : String} {w : Value}

theorem blank_of_envSpace {c : Char} (h : isEnvSpace c = true) : isBlank c = true := by
  have hall : ∀ x ∈ [' ', '\t', '\n', '\x0c', '\r'], isBlank x = true := by simp [isBlank]
  refine hall c ?_
  simpa [isEnvSpace, or_assoc] using h

theorem skipEnvSpaces_of_head (h : ∀ c ∈ cs.head?, isBlank c = false) : skipEnvSpaces cs = cs := by
  cases cs with
  | nil => rfl
  | cons c cs =>
    have hc : isEnvSpace c = false := by
      rw [← Bool.not_eq_true]
      intro hspace
      have hblank := h c rfl
      rw [blank_of_envSpace hspace] at hblank
      cases hblank
    rw [skipEnvSpaces, List.dropWhile_cons_of_neg (by simp [hc])]

/-- a text with other characters than a quote or a letter of a truth word at its start is bare up to a mark -/
theorem envScalar_bare (ht : cs.head? ≠ some 't') (hf : cs.head? ≠ some 'f') (hquote : cs.head? ≠ some '"')
    (hapostrophe : cs.head? ≠ some '\'') (hmark : ∀ c ∈ cs, isEnvMark c = false) :
    envScalar cs = some (bareValue (trim cs), []) := by
  have hdrop : ∀ (p : Char) (ps : List Char), cs.head? ≠ some p → dropStart? (p :: ps) cs = none := by
    intro p ps hp
    cases cs with
    | nil => rfl
    | cons c cs => rw [dropStart?, if_neg fun h => hp (congrArg some h.symm)]
  have htrue : dropStart? "true".toList cs = none := hdrop 't' _ ht
  have hfalse : dropStart? "false".toList cs = none := hdrop 'f' _ hf
  have hall : ∀ c ∈ cs, (!isEnvMark c) = true := fun c hc => by rw [hmark c hc]; rfl
  unfold envScalar
  rw [htrue, hfalse]
  dsimp only
  split
  · exact absurd rfl hquote
  · exact absurd rfl hapostrophe
  · exact absurd rfl hapostrophe
  · rw [List.takeWhile_eq_self_iff.2 hall, List.dropWhile_eq_nil_iff.2 hall]

/-- a text is read as a value that takes all of it and holds no others -/
theorem reads_scalar (hhead : ∀ c ∈ cs.head?, isBlank c = false) (hlist : cs.head? ≠ some '[')
    (htable : cs.head? ≠ some '\x7b') (h : envScalar cs = some (w, [])) : Reads cs w [] := by
  rw [← skipEnvSpaces_of_head hhead] at hlist htable h
  exact Reads.scalar hlist htable h

/-- a numeric text is read as a bare text, all of it -/
theorem reads_numeric (h : ∀ c ∈ cs, isNumeric c = true) : Reads cs (bareValue cs) [] := by
  have hblank : ∀ c ∈ cs, isBlank c = false := fun c hc => not_blank_of_numeric (h c hc)
  have hstart : ∀ c ∈ cs.head?, isBlank c = false := fun c hc => hblank c (List.mem_of_mem_head? hc)
  have htrim : trim cs = cs := trim_of_ends hstart fun c hc => hblank c (List.mem_of_mem_getLast? hc)
  have hhead : ∀ x, isNumeric x = false → cs.head? ≠ some x := by
    intro x hx hcs
    exact ne_of_numeric (h x (List.mem_of_mem_head? hcs)) hx rfl
  have hscalar := envScalar_bare (hhead 't' (by decide)) (hhead 'f' (by decide)) (hhead '"' (by decide))
    (hhead '\'' (by decide)) fun c hc => not_mark_of_numeric (h c hc)
  rw [htrim] at hscalar
  exact reads_scalar hstart (hhead '[' (by decide)) (hhead '\x7b' (by decide)) hscalar

/-- a whole number has no point -/
theorem not_fraction_of_intLiteral {n : Int} (h : intLiteral? cs = some n) : '.' ∉ cs := by
  intro hpoint
  exact absurd (digits_of_intLiteral h '.' (mem_splitSign hpoint)) (by decide)

theorem bareValue_of_fraction (hpoint : '.' ∈ cs) (h : (floatLiteral? cs).isSome) : bareValue cs = .other := by
  simp [bareValue, hpoint, h]

theorem bareValue_of_natural {n : Nat} (h : natLiteral? cs = some n) (hn : n < UInt64.size) :
    bareValue cs = .whole n := by
  have hpoint := not_fraction_of_intLiteral (intLiteral_of_natLiteral h)
  have hnat : (natLiteral? cs).filter (· < UInt64.size) = some n :=
    Option.filter_eq_some_iff.2 ⟨h, decide_eq_true hn⟩
  simp [bareValue, hpoint, hnat]

theorem bareValue_of_integer {n : Int} (h : intLiteral? cs = some n) (hn : isSigned64 n = true) :
    bareValue cs = .whole n := by
  have hpoint := not_fraction_of_intLiteral h
  cases hnat : (natLiteral? cs).filter (· < UInt64.size) with
  | none =>
    have hint : (intLiteral? cs).filter isSigned64 = some n := Option.filter_eq_some_iff.2 ⟨h, hn⟩
    simp [bareValue, hpoint, hnat, hint]
  | some m =>
    -- both readings of the number agree
    obtain ⟨hm, -⟩ := Option.filter_eq_some_iff.1 hnat
    obtain rfl : (m : Int) = n := Option.some.inj ((intLiteral_of_natLiteral hm).symm.trans h)
    simp [bareValue, hpoint, hnat]

/-- a bare text that is no number is itself -/
theorem bareValue_eq (cs : List Char) : Written cs (bareValue cs) ∨ bareValue cs = .text (String.ofList cs) := by
  unfold bareValue
  split
  · rename_i h
    obtain ⟨hpoint, hliteral⟩ := Bool.and_eq_true_iff.1 h
    exact .inl (.fraction (List.contains_iff_mem.1 hpoint) hliteral)
  · split
    · rename_i n hnat
      obtain ⟨h, hn⟩ := Option.filter_eq_some_iff.1 hnat
      exact .inl (.natural h (of_decide_eq_true hn))
    · split
      · rename_i n hint
        obtain ⟨h, hn⟩ := Option.filter_eq_some_iff.1 hint
        exact .inl (.integer h hn)
      · exact .inr rfl

/-- a written form is read as its value -/
theorem reads_of_written (h : Written cs w) : Reads cs w [] := by
  cases h with
  | yes => exact reads_scalar (by rintro _ ⟨⟩; decide) (by decide) (by decide) rfl
  | no => exact reads_scalar (by rintro _ ⟨⟩; decide) (by decide) (by decide) rfl
  | fraction hpoint h =>
    rw [← bareValue_of_fraction hpoint h]
    exact reads_numeric (numeric_of_fraction hpoint h)
  | natural h hn =>
    rw [← bareValue_of_natural h hn]
    exact reads_numeric (numeric_of_intLiteral (intLiteral_of_natLiteral h))
  | integer h hn =>
    rw [← bareValue_of_integer h hn]
    exact reads_numeric (numeric_of_intLiteral h)
  | quoted h =>
    have hquote : isBlank '"' = false := by decide
    exact reads_scalar (by simp [hquote]) (by simp) (by simp) (by simp [envScalar, dropStart?, h])
  | char c =>
    have hquote : isBlank '\'' = false := by decide
    exact reads_scalar (by simp [hquote]) (by simp) (by simp) rfl
  | list h => exact .list rfl h
  | table h => exact .table rfl h

/-- behind a value that takes all of a text but blanks, where the text ends with none, nothing is left -/
theorem eq_nil_of_suffix (hlast : ∀ c ∈ cs.getLast?, isBlank c = false) {rest : List Char} (hsuffix : rest <:+ cs)
    (h : skipEnvSpaces rest = []) : rest = [] := by
  by_contra hne
  have hspace := List.dropWhile_eq_nil_iff.1 h _ (List.getLast_mem hne)
  have hend : cs.getLast? = some (rest.getLast hne) := by
    obtain ⟨front, rfl⟩ := hsuffix
    rw [List.getLast?_append_of_ne_nil _ hne, List.getLast?_eq_some_getLast hne]
  have hblank := hlast _ hend
  rw [blank_of_envSpace hspace] at hblank
  cases hblank

/-- what is read as a value without others, all of it, is a written form or bare -/
theorem written_of_envScalar (htrim : trim cs = cs) (h : envScalar cs = some (w, [])) :
    Written cs w ∨ w = .text (String.ofList cs) := by
  unfold envScalar at h
  split at h
  · rename_i rest htrue
    cases h
    obtain rfl : "true".toList = cs := (List.append_nil _).symm.trans (dropStart?_eq_some.1 htrue)
    exact .inl .yes
  · rename_i rest hno hfalse
    cases h
    obtain rfl : "false".toList = cs := (List.append_nil _).symm.trans (dropStart?_eq_some.1 hfalse)
    exact .inl .no
  · split at h
    · obtain ⟨⟨s, after⟩, hs, h⟩ := Option.map_eq_some_iff.1 h
      cases h
      exact .inl (.quoted hs)
    · cases h
      exact .inl (.char _)
    · cases h
    · -- no mark stands in a bare text that is all there is
      obtain ⟨hv, hrest⟩ := Prod.mk.inj (Option.some.inj h)
      have hall : cs.takeWhile (fun c => !isEnvMark c) = cs :=
        List.takeWhile_eq_self_iff.2 (List.dropWhile_eq_nil_iff.1 hrest)
      rw [hall, htrim] at hv
      rcases bareValue_eq cs with hwritten | htext
      · exact .inl (hv ▸ hwritten)
      · exact .inr (hv.symm.trans htext)

/-- a text without blanks at its ends that is read as a whole is a written form, or bare and itself -/
theorem written_or_text (ht : Tight v) (h : Reads v.toList w []) : Written v.toList w ∨ w = .text v := by
  have hskip := skipEnvSpaces_of_head ht.head
  generalize hnil : [] = rest at h
  cases h with
  | scalar hlist htable h =>
    rw [hskip] at h
    obtain rfl := eq_nil_of_suffix ht.last (envScalar_suffix h) hnil.symm
    have hw := written_of_envScalar (trim_of_tight ht) h
    rwa [String.ofList_toList] at hw
  | list hs h =>
    rw [hskip] at hs
    have hitems := (suffixes _).2.1 _ _ _ ((envValue_of_reads _).2.1 _ _ _ h le_rfl)
    have hsuffix := ((List.suffix_cons ..).trans hitems).trans (hs ▸ List.suffix_cons ..)
    obtain rfl := eq_nil_of_suffix ht.last hsuffix hnil.symm
    rw [hs]
    exact .inl (.list h)
  | table hs h =>
    rw [hskip] at hs
    have hpairs := (suffixes _).2.2 _ _ _ ((envValue_of_reads _).2.2 _ _ _ h le_rfl)
    have hsuffix := ((List.suffix_cons ..).trans hpairs).trans (hs ▸ List.suffix_cons ..)
    obtain rfl := eq_nil_of_suffix ht.last hsuffix hnil.symm
    rw [hs]
    exact .inl (.table h)

/-- a quoted text is shorter than what it is written by -/
theorem quotedBody_length {s rest : List Char} (h : quotedBody cs = some (s, rest)) : s.length < cs.length := by
  induction cs using quotedBody.induct generalizing s with
  | case1 =>
    rw [quotedBody] at h
    cases h
  | case2 cs =>
    rw [quotedBody] at h
    cases h
    simp
  | case3 cs hnone =>
    rw [quotedBody, hnone] at h
    cases h
  | case4 cs c taken hsome ih =>
    rw [quotedBody, hsome] at h
    obtain ⟨⟨t, after⟩, ht, h⟩ := Option.map_eq_some_iff.1 h
    cases h
    have hlt := ih ht
    rw [List.length_drop] at hlt
    simp only [List.length_cons]
    omega
  | case5 c cs hquote hescape hprintable ih =>
    rw [quotedBody, if_pos hprintable] at h
    · obtain ⟨⟨t, after⟩, ht, h⟩ := Option.map_eq_some_iff.1 h
      cases h
      simpa using ih ht
    · exact hquote
    · exact hescape
  | case6 c cs hquote hescape hprintable =>
    rw [quotedBody, if_neg hprintable] at h
    · cases h
    · exact hquote
    · exact hescape

/-- a written form has another text than itself, or none -/
theorem text?_ne_of_written (h : Written v.toList w) : w.text? ≠ some v := by
  intro htext
  generalize hcs : v.toList = cs at h
  cases h with
  | quoted h =>
    cases htext
    rw [String.toList_ofList] at hcs
    have hlt := quotedBody_length h
    rw [hcs, List.length_cons] at hlt
    omega
  | char c =>
    cases htext
    have hlen := congrArg List.length hcs
    simp at hlen
  | _ => cases htext

/-- a variable that holds a written form holds its value -/
theorem ofVariable_of_written (h : Written v.toList w) : Value.ofVariable v = w :=
  ofVariable_eq_iff.2 (.inl (reads_of_written h))

/-- **A text without blanks at its ends is kept exactly when it is no written form** -/
theorem ofVariable_eq_text_iff (ht : Tight v) : Value.ofVariable v = .text v ↔ ¬ ∃ w, Written v.toList w := by
  constructor
  · rintro htext ⟨w, hw⟩
    rw [ofVariable_of_written hw] at htext
    exact text?_ne_of_written hw (by rw [htext]; rfl)
  · intro hno
    by_cases hreads : ∃ w, Reads v.toList w []
    · obtain ⟨w, hw⟩ := hreads
      rcases written_or_text ht hw with hwritten | rfl
      · exact absurd ⟨w, hwritten⟩ hno
      · exact ofVariable_eq_iff.2 (.inl hw)
    · exact ofVariable_eq_iff.2 (.inr ⟨hreads, rfl⟩)

end

end ImportHarvest.Settings

import ImportHarvest.Proofs.Trimmed
import ImportHarvest.Settings.Environment
/-!
The grammar of the values that variables hold.

`Reads cs v rest` says that a text starts with a value, the blanks around it included, by one rule for each form that a
value has; `ReadsItems` and `ReadsPairs` go up to the closing bracket or brace. The steps that the reader is given are
enough for every text, so it reads what the rules say (`reads_of_envValue`, `envValue_of_reads`).
-/

namespace ImportHarvest.Settings

open Text

/-! ## Rules -/

mutual
/-- a text starts with a value, the blanks around it included -/
inductive Reads : List Char → Value → List Char → Prop
  | scalar {cs : List Char} {v : Value} {rest : List Char} (hlist : (skipEnvSpaces cs).head? ≠ some '[')
      (htable : (skipEnvSpaces cs).head? ≠ some '\x7b') (h : envScalar (skipEnvSpaces cs) = some (v, rest)) :
      Reads cs v (skipEnvSpaces rest)
  | list {cs body : List Char} {vs : List Value} {rest : List Char} (hcs : skipEnvSpaces cs = '[' :: body)
      (h : ReadsItems body vs rest) : Reads cs (.list vs) (skipEnvSpaces rest)
  | table {cs body : List Char} {es : Table} {rest : List Char} (hcs : skipEnvSpaces cs = '\x7b' :: body)
      (h : ReadsPairs body es rest) : Reads cs (.table es) (skipEnvSpaces rest)
/-- a text starts with the items of a list and the bracket that closes it -/
inductive ReadsItems : List Char → List Value → List Char → Prop
  | close {rest : List Char} : ReadsItems (']' :: rest) [] rest
  | last {cs : List Char} {v : Value} {rest : List Char} (hcs : cs.head? ≠ some ']') (h : Reads cs v (']' :: rest)) :
      ReadsItems cs [v] rest
  | more {cs : List Char} {v : Value} {others : List Char} {vs : List Value} {rest : List Char}
      (hcs : cs.head? ≠ some ']') (h : Reads cs v (',' :: others)) (hothers : ReadsItems others vs rest) :
      ReadsItems cs (v :: vs) rest
/-- a text starts with the pairs of a table and the brace that closes it -/
inductive ReadsPairs : List Char → Table → List Char → Prop
  | close {rest : List Char} : ReadsPairs ('\x7d' :: rest) [] rest
  | last {cs : List Char} {key : String} {held : List Char} {v : Value} {rest : List Char}
      (hcs : cs.head? ≠ some '\x7d') (hkey : envKey (skipEnvSpaces cs) = some (key, held))
      (h : Reads held v ('\x7d' :: rest)) : ReadsPairs cs [(key, v)] rest
  | more {cs : List Char} {key : String} {held : List Char} {v : Value} {others : List Char} {es : Table}
      {rest : List Char} (hcs : cs.head? ≠ some '\x7d') (hkey : envKey (skipEnvSpaces cs) = some (key, held))
      (h : Reads held v (',' :: others)) (hothers : ReadsPairs others es rest) : ReadsPairs cs ((key, v) :: es) rest
end

/-! ## One step of the reader -/

section

variable {c : Char} {steps : Nat} {cs rest : List Char}

theorem head?_ne_some_iff : cs.head? ≠ some c ↔ ∀ rest, cs = c :: rest → False := by
  cases cs with
  | nil => simp
  | cons x xs => simp

/-- a value is a list, a table, or a value that holds no others, by the character that it starts with -/
theorem of_envValue {v : Value} (h : envValue (steps + 1) cs = some (v, rest)) :
    (∃ body vs after, skipEnvSpaces cs = '[' :: body ∧ envItems steps body = some (vs, after) ∧ v = .list vs ∧
      rest = skipEnvSpaces after) ∨
    (∃ body es after, skipEnvSpaces cs = '\x7b' :: body ∧ envPairs steps body = some (es, after) ∧ v = .table es ∧
      rest = skipEnvSpaces after) ∨
    (skipEnvSpaces cs).head? ≠ some '[' ∧ (skipEnvSpaces cs).head? ≠ some '\x7b' ∧
      ∃ after, envScalar (skipEnvSpaces cs) = some (v, after) ∧ rest = skipEnvSpaces after := by
  rw [envValue] at h
  split at h
  · rename_i body hs
    obtain ⟨⟨w, after⟩, hitems, h⟩ := Option.bind_eq_some_iff.1 h
    obtain ⟨⟨vs, after⟩, hitems, hw⟩ := Option.map_eq_some_iff.1 hitems
    cases hw
    cases h
    exact .inl ⟨body, vs, after, hs, hitems, rfl, rfl⟩
  · rename_i body hs
    obtain ⟨⟨w, after⟩, hpairs, h⟩ := Option.bind_eq_some_iff.1 h
    obtain ⟨⟨es, after⟩, hpairs, hw⟩ := Option.map_eq_some_iff.1 hpairs
    cases hw
    cases h
    exact .inr (.inl ⟨body, es, after, hs, hpairs, rfl, rfl⟩)
  · rename_i hlist htable
    obtain ⟨⟨w, after⟩, hscalar, h⟩ := Option.bind_eq_some_iff.1 h
    cases h
    exact .inr (.inr ⟨head?_ne_some_iff.2 hlist, head?_ne_some_iff.2 htable, after, hscalar, rfl⟩)

theorem envValue_list {body after : List Char} {vs : List Value} (hcs : skipEnvSpaces cs = '[' :: body)
    (h : envItems steps body = some (vs, after)) :
    envValue (steps + 1) cs = some (.list vs, skipEnvSpaces after) := by
  simp [envValue, hcs, h]

theorem envValue_table {body after : List Char} {es : Table} (hcs : skipEnvSpaces cs = '\x7b' :: body)
    (h : envPairs steps body = some (es, after)) :
    envValue (steps + 1) cs = some (.table es, skipEnvSpaces after) := by
  simp [envValue, hcs, h]

theorem envValue_scalar {after : List Char} {v : Value} (hlist : (skipEnvSpaces cs).head? ≠ some '[')
    (htable : (skipEnvSpaces cs).head? ≠ some '\x7b') (h : envScalar (skipEnvSpaces cs) = some (v, after)) :
    envValue (steps + 1) cs = some (v, skipEnvSpaces after) := by
  rw [envValue]
  split
  · rename_i hs
    exact absurd hs (head?_ne_some_iff.1 hlist _)
  · rename_i hs
    exact absurd hs (head?_ne_some_iff.1 htable _)
  · rw [h]
    rfl

/-- the items of a list end with its bracket, and go on after a comma -/
theorem of_envItems {vs : List Value} (h : envItems (steps + 1) cs = some (vs, rest)) :
    (cs = ']' :: rest ∧ vs = []) ∨
    cs.head? ≠ some ']' ∧ ∃ v,
      (envValue steps cs = some (v, ']' :: rest) ∧ vs = [v]) ∨
      ∃ others ws, envValue steps cs = some (v, ',' :: others) ∧ envItems steps others = some (ws, rest) ∧
        vs = v :: ws := by
  rw [envItems.eq_def] at h
  dsimp only at h
  split at h
  · cases h
    exact .inl ⟨rfl, rfl⟩
  · rename_i hopen
    obtain ⟨⟨v, after⟩, hv, h⟩ := Option.bind_eq_some_iff.1 h
    dsimp only at h
    refine .inr ⟨head?_ne_some_iff.2 hopen, v, ?_⟩
    split at h
    · rename_i others
      obtain ⟨⟨ws, after⟩, hws, h⟩ := Option.map_eq_some_iff.1 h
      cases h
      exact .inr ⟨others, ws, hv, hws, rfl⟩
    · cases h
      exact .inl ⟨hv, rfl⟩
    · cases h

theorem envItems_last {v : Value} (hcs : cs.head? ≠ some ']') (h : envValue steps cs = some (v, ']' :: rest)) :
    envItems (steps + 1) cs = some ([v], rest) := by
  rw [envItems]
  · rw [h]
    rfl
  · exact head?_ne_some_iff.1 hcs

theorem envItems_more {v : Value} {others : List Char} {vs : List Value} (hcs : cs.head? ≠ some ']')
    (h : envValue steps cs = some (v, ',' :: others)) (hothers : envItems steps others = some (vs, rest)) :
    envItems (steps + 1) cs = some (v :: vs, rest) := by
  rw [envItems]
  · rw [h]
    simp only [Option.bind_eq_bind, Option.bind_some, hothers, Option.map_some]
  · exact head?_ne_some_iff.1 hcs

/-- the pairs of a table end with its brace, and go on after a comma -/
theorem of_envPairs {es : Table} (h : envPairs (steps + 1) cs = some (es, rest)) :
    (cs = '\x7d' :: rest ∧ es = []) ∨
    cs.head? ≠ some '\x7d' ∧ ∃ key held, envKey (skipEnvSpaces cs) = some (key, held) ∧ ∃ v,
      (envValue steps held = some (v, '\x7d' :: rest) ∧ es = [(key, v)]) ∨
      ∃ others fs, envValue steps held = some (v, ',' :: others) ∧ envPairs steps others = some (fs, rest) ∧
        es = (key, v) :: fs := by
  rw [envPairs.eq_def] at h
  dsimp only at h
  split at h
  · cases h
    exact .inl ⟨rfl, rfl⟩
  · rename_i hopen
    obtain ⟨⟨key, held⟩, hkey, h⟩ := Option.bind_eq_some_iff.1 h
    obtain ⟨⟨v, after⟩, hv, h⟩ := Option.bind_eq_some_iff.1 h
    dsimp only at h
    refine .inr ⟨head?_ne_some_iff.2 hopen, key, held, hkey, v, ?_⟩
    split at h
    · rename_i others
      obtain ⟨⟨fs, after⟩, hfs, h⟩ := Option.map_eq_some_iff.1 h
      cases h
      exact .inr ⟨others, fs, hv, hfs, rfl⟩
    · cases h
      exact .inl ⟨hv, rfl⟩
    · cases h

theorem envPairs_last {key : String} {held : List Char} {v : Value} (hcs : cs.head? ≠ some '\x7d')
    (hkey : envKey (skipEnvSpaces cs) = some (key, held)) (h : envValue steps held = some (v, '\x7d' :: rest)) :
    envPairs (steps + 1) cs = some ([(key, v)], rest) := by
  rw [envPairs]
  · rw [hkey]
    simp only [Option.bind_eq_bind, Option.bind_some, h]
  · exact head?_ne_some_iff.1 hcs

theorem envPairs_more {key : String} {held : List Char} {v : Value} {others : List Char} {es : Table}
    (hcs : cs.head? ≠ some '\x7d') (hkey : envKey (skipEnvSpaces cs) = some (key, held))
    (h : envValue steps held = some (v, ',' :: others)) (hothers : envPairs steps others = some (es, rest)) :
    envPairs (steps + 1) cs = some ((key, v) :: es, rest) := by
  rw [envPairs]
  · rw [hkey]
    simp only [Option.bind_eq_bind, Option.bind_some, h, hothers, Option.map_some]
  · exact head?_ne_some_iff.1 hcs

end

/-! ## What is left of a text -/

section

variable {steps : Nat} {cs rest : List Char}

theorem skipEnvSpaces_suffix (cs : List Char) : skipEnvSpaces cs <:+ cs := List.dropWhile_suffix _

theorem dropStart?_suffix {start : List Char} (h : dropStart? start cs = some rest) : rest <:+ cs :=
  ⟨start, dropStart?_eq_some.1 h⟩

/-- what follows a quoted text stands behind its closing quote -/
theorem quotedBody_suffix {s : List Char} (h : quotedBody cs = some (s, rest)) : '"' :: rest <:+ cs := by
  induction cs using quotedBody.induct generalizing s with
  | case1 =>
    rw [quotedBody] at h
    cases h
  | case2 cs =>
    rw [quotedBody] at h
    cases h
    exact List.suffix_rfl
  | case3 cs hnone =>
    rw [quotedBody, hnone] at h
    cases h
  | case4 cs c taken hsome ih =>
    rw [quotedBody, hsome] at h
    obtain ⟨⟨t, after⟩, ht, h⟩ := Option.map_eq_some_iff.1 h
    cases h
    exact ((ih ht).trans (List.drop_suffix taken cs)).trans (List.suffix_cons ..)
  | case5 c cs hquote hescape hprintable ih =>
    rw [quotedBody, if_pos hprintable] at h
    · obtain ⟨⟨t, after⟩, ht, h⟩ := Option.map_eq_some_iff.1 h
      cases h
      exact (ih ht).trans (List.suffix_cons ..)
    · exact hquote
    · exact hescape
  | case6 c cs hquote hescape hprintable =>
    rw [quotedBody, if_neg hprintable] at h
    · cases h
    · exact hquote
    · exact hescape

theorem envScalar_suffix {v : Value} (h : envScalar cs = some (v, rest)) : rest <:+ cs := by
  unfold envScalar at h
  split at h
  · rename_i after htrue
    cases h
    exact dropStart?_suffix htrue
  · rename_i after hfalse
    cases h
    exact dropStart?_suffix hfalse
  · split at h
    · obtain ⟨⟨t, after⟩, ht, h⟩ := Option.map_eq_some_iff.1 h
      cases h
      exact ((List.suffix_cons ..).trans (quotedBody_suffix ht)).trans (List.suffix_cons ..)
    · cases h
      exact ⟨['\'', _, '\''], rfl⟩
    · cases h
    · cases h
      exact List.dropWhile_suffix _

theorem envKey_suffix {key : String} (h : envKey cs = some (key, rest)) : '=' :: rest <:+ cs := by
  unfold envKey at h
  split at h
  · obtain ⟨⟨name, after⟩, hname, h⟩ := Option.bind_eq_some_iff.1 h
    dsimp only at h
    split at h
    · rename_i hs
      cases h
      rw [← hs]
      exact (((skipEnvSpaces_suffix after).trans (List.suffix_cons ..)).trans (quotedBody_suffix hname)).trans
        (List.suffix_cons ..)
    · cases h
  · split at h
    · cases h
    · simp only [Option.bind_eq_bind, Option.bind_some] at h
      split at h
      · rename_i hs
        cases h
        rw [← hs]
        exact (skipEnvSpaces_suffix _).trans (List.drop_suffix ..)
      · cases h

/-- what is left stands at the end of the text, after the bracket or the brace that closes a list or a table -/
theorem suffixes (steps : Nat) :
    (∀ cs v rest, envValue steps cs = some (v, rest) → rest <:+ cs) ∧
      (∀ cs vs rest, envItems steps cs = some (vs, rest) → ']' :: rest <:+ cs) ∧
      ∀ cs es rest, envPairs steps cs = some (es, rest) → '\x7d' :: rest <:+ cs := by
  induction steps with
  | zero =>
    refine ⟨fun cs v rest h => ?_, fun cs vs rest h => ?_, fun cs es rest h => ?_⟩
    · rw [envValue] at h
      cases h
    · rw [envItems] at h
      cases h
    · rw [envPairs] at h
      cases h
  | succ steps ih =>
    obtain ⟨ihv, ihi, ihp⟩ := ih
    refine ⟨fun cs v rest h => ?_, fun cs vs rest h => ?_, fun cs es rest h => ?_⟩
    · have hcs := skipEnvSpaces_suffix cs
      rcases of_envValue h with ⟨body, vs, after, hs, hitems, -, rfl⟩ | ⟨body, es, after, hs, hpairs, -, rfl⟩ |
        ⟨-, -, after, hscalar, rfl⟩
      · have hbody : after <:+ '[' :: body :=
          ((List.suffix_cons ..).trans (ihi _ _ _ hitems)).trans (List.suffix_cons ..)
        exact (skipEnvSpaces_suffix after).trans (hbody.trans (hs ▸ hcs))
      · have hbody : after <:+ '\x7b' :: body :=
          ((List.suffix_cons ..).trans (ihp _ _ _ hpairs)).trans (List.suffix_cons ..)
        exact (skipEnvSpaces_suffix after).trans (hbody.trans (hs ▸ hcs))
      · exact (skipEnvSpaces_suffix after).trans ((envScalar_suffix hscalar).trans hcs)
    · rcases of_envItems h with ⟨rfl, -⟩ | ⟨-, v, ⟨hv, -⟩ | ⟨others, ws, hv, hws, -⟩⟩
      · exact List.suffix_rfl
      · exact ihv _ _ _ hv
      · exact ((ihi _ _ _ hws).trans (List.suffix_cons ..)).trans (ihv _ _ _ hv)
    · rcases of_envPairs h with ⟨rfl, -⟩ | ⟨-, key, held, hkey, v, ⟨hv, -⟩ | ⟨others, fs, hv, hfs, -⟩⟩
      · exact List.suffix_rfl
      · have hheld : held <:+ cs := (List.suffix_cons ..).trans ((envKey_suffix hkey).trans (skipEnvSpaces_suffix cs))
        exact (ihv _ _ _ hv).trans hheld
      · have hheld : held <:+ cs := (List.suffix_cons ..).trans ((envKey_suffix hkey).trans (skipEnvSpaces_suffix cs))
        exact ((ihp _ _ _ hfs).trans (List.suffix_cons ..)).trans ((ihv _ _ _ hv).trans hheld)

end

/-! ## The reader and the rules -/

/-- what the reader reads is by the rules -/
theorem reads_of_envValue (steps : Nat) :
    (∀ cs v rest, envValue steps cs = some (v, rest) → Reads cs v rest) ∧
      (∀ cs vs rest, envItems steps cs = some (vs, rest) → ReadsItems cs vs rest) ∧
      ∀ cs es rest, envPairs steps cs = some (es, rest) → ReadsPairs cs es rest := by
  induction steps with
  | zero =>
    refine ⟨fun cs v rest h => ?_, fun cs vs rest h => ?_, fun cs es rest h => ?_⟩
    · rw [envValue] at h
      cases h
    · rw [envItems] at h
      cases h
    · rw [envPairs] at h
      cases h
  | succ steps ih =>
    obtain ⟨ihv, ihi, ihp⟩ := ih
    refine ⟨fun cs v rest h => ?_, fun cs vs rest h => ?_, fun cs es rest h => ?_⟩
    · rcases of_envValue h with ⟨body, vs, after, hs, hitems, rfl, rfl⟩ | ⟨body, es, after, hs, hpairs, rfl, rfl⟩ |
        ⟨hlist, htable, after, hscalar, rfl⟩
      · exact .list hs (ihi _ _ _ hitems)
      · exact .table hs (ihp _ _ _ hpairs)
      · exact .scalar hlist htable hscalar
    · rcases of_envItems h with ⟨rfl, rfl⟩ | ⟨hcs, v, ⟨hv, rfl⟩ | ⟨others, ws, hv, hws, rfl⟩⟩
      · exact .close
      · exact .last hcs (ihv _ _ _ hv)
      · exact .more hcs (ihv _ _ _ hv) (ihi _ _ _ hws)
    · rcases of_envPairs h with ⟨rfl, rfl⟩ | ⟨hcs, key, held, hkey, v, ⟨hv, rfl⟩ | ⟨others, fs, hv, hfs, rfl⟩⟩
      · exact .close
      · exact .last hcs hkey (ihv _ _ _ hv)
      · exact .more hcs hkey (ihv _ _ _ hv) (ihp _ _ _ hfs)

/-- what is by the rules the reader reads, with two steps for every character and some for the end -/
theorem envValue_of_reads (steps : Nat) :
    (∀ cs v rest, Reads cs v rest → 2 * cs.length + 2 ≤ steps → envValue steps cs = some (v, rest)) ∧
      (∀ cs vs rest, ReadsItems cs vs rest → 2 * cs.length + 3 ≤ steps → envItems steps cs = some (vs, rest)) ∧
      ∀ cs es rest, ReadsPairs cs es rest → 2 * cs.length + 3 ≤ steps → envPairs steps cs = some (es, rest) := by
  induction steps with
  | zero => exact ⟨fun _ _ _ _ h => by omega, fun _ _ _ _ h => by omega, fun _ _ _ _ h => by omega⟩
  | succ steps ih =>
    obtain ⟨ihv, ihi, ihp⟩ := ih
    obtain ⟨hsuffix, -, -⟩ := suffixes steps
    refine ⟨fun cs v rest h hn => ?_, fun cs vs rest h hn => ?_, fun cs es rest h hn => ?_⟩
    · have hcs := (skipEnvSpaces_suffix cs).length_le
      cases h with
      | scalar hlist htable h => exact envValue_scalar hlist htable h
      | list hs h =>
        rw [hs, List.length_cons] at hcs
        exact envValue_list hs (ihi _ _ _ h (by omega))
      | table hs h =>
        rw [hs, List.length_cons] at hcs
        exact envValue_table hs (ihp _ _ _ h (by omega))
    · cases h with
      | close => rw [envItems]
      | last hcs h => exact envItems_last hcs (ihv _ _ _ h (by omega))
      | more hcs h hothers =>
        have hv := ihv _ _ _ h (by omega)
        have hlt := (hsuffix _ _ _ hv).length_le
        rw [List.length_cons] at hlt
        exact envItems_more hcs hv (ihi _ _ _ hothers (by omega))
    · have hskip := (skipEnvSpaces_suffix cs).length_le
      cases h with
      | close => rw [envPairs]
      | last hcs hkey h =>
        have hheld := (envKey_suffix hkey).length_le
        rw [List.length_cons] at hheld
        exact envPairs_last hcs hkey (ihv _ _ _ h (by omega))
      | more hcs hkey h hothers =>
        have hheld := (envKey_suffix hkey).length_le
        rw [List.length_cons] at hheld
        have hv := ihv _ _ _ h (by omega)
        have hlt := (hsuffix _ _ _ hv).length_le
        rw [List.length_cons] at hlt
        exact envPairs_more hcs hkey hv (ihp _ _ _ hothers (by omega))

/-- **A variable holds the value that it is written as**, when that takes all of it, and else its text -/
theorem ofVariable_eq_iff {raw : String} {v : Value} : Value.ofVariable raw = v ↔
    Reads raw.toList v [] ∨ (¬ ∃ w, Reads raw.toList w []) ∧ v = .text raw := by
  have hreads : ∀ w, Reads raw.toList w [] ↔ envValue (2 * raw.length + 2) raw.toList = some (w, []) := by
    intro w
    constructor
    · intro h
      exact (envValue_of_reads _).1 _ _ _ h (by rw [String.length_toList])
    · exact (reads_of_envValue _).1 _ _ _
  simp only [hreads]
  rw [Value.ofVariable]
  split
  · rename_i w hw
    rw [hw]
    simp
  · rename_i hnone
    have hno : ¬ ∃ w, envValue (2 * raw.length + 2) raw.toList = some (w, []) := fun ⟨w, hw⟩ => hnone w hw
    constructor
    · intro h
      exact .inr ⟨hno, h.symm⟩
    · rintro (h | ⟨-, h⟩)
      · exact absurd ⟨v, h⟩ hno
      · exact h.symm

end ImportHarvest.Settings

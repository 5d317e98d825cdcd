import ImportHarvest.Json.Parser
import Mathlib.Data.List.TakeWhile
import Mathlib.Tactic.SplitIfs
/-!
The leaves of JSON text.

The grammar is said without a reader: blanks, the characters of a string and their escapes (`Spells`), and the parts of a
number (`IsNumber`). Each leaf is read from the start of the text up to what does not belong to it (`stringBody_of_isString`,
`numeral_append`), and nothing else is read as one (`isString_of_stringBody`, `isNumber_of_numeral`). A number has no mark
at its end, so what follows it must not go on with it (`EndsNumber`).
-/

namespace ImportHarvest.Json

open Text

/-! ## Blanks -/

/-- text that may stand between tokens -/
def Blanks (cs : List Char) : Prop := ∀ c ∈ cs, isSpace c = true

theorem skipSpaces_append {blanks : List Char} (h : Blanks blanks) (rest : List Char) :
    skipSpaces (blanks ++ rest) = skipSpaces rest := by
  induction blanks with
  | nil => rfl
  | cons c blanks ih =>
    obtain ⟨hc, hblanks⟩ := List.forall_mem_cons.1 h
    rw [List.cons_append, skipSpaces, List.dropWhile_cons, if_pos hc]
    exact ih hblanks

theorem skipSpaces_of_not_space {c : Char} (h : isSpace c = false) (rest : List Char) :
    skipSpaces (c :: rest) = c :: rest := by
  rw [skipSpaces, List.dropWhile_cons, h, if_neg Bool.false_ne_true]

theorem skipSpaces_skipSpaces (cs : List Char) : skipSpaces (skipSpaces cs) = skipSpaces cs := by
  induction cs with
  | nil => rfl
  | cons c cs ih =>
    cases hc : isSpace c with
    | true =>
      have hskip : skipSpaces (c :: cs) = skipSpaces cs := by
        rw [skipSpaces, List.dropWhile_cons, if_pos hc]
        rfl
      rw [hskip, ih]
    | false => rw [skipSpaces_of_not_space hc, skipSpaces_of_not_space hc]

theorem exists_blanks (cs : List Char) : ∃ blanks, Blanks blanks ∧ cs = blanks ++ skipSpaces cs :=
  ⟨cs.takeWhile isSpace, fun _ hc => List.mem_takeWhile_imp hc, List.takeWhile_append_dropWhile.symm⟩

/-! ## Strings -/

/-- four hexadecimal digits write this number -/
def Hex (digits : List Char) (n : Nat) : Prop :=
  ∃ a b c d a' b' c' d', digits = [a, b, c, d] ∧ hexValue? a = some a' ∧ hexValue? b = some b' ∧
    hexValue? c = some c' ∧ hexValue? d = some d' ∧ n = ((a' * 16 + b') * 16 + c') * 16 + d'

/-- what may stand for a character behind a backslash, by itself -/
def shortEscapes : List (Char × Char) :=
  [('"', '"'), ('\\', '\\'), ('/', '/'), ('b', '\x08'), ('f', '\x0c'), ('n', '\n'), ('r', '\r'), ('t', '\t')]

/-- a character that may stand in a string as it is -/
def IsPlain (c : Char) : Prop := 0x20 ≤ c.toNat ∧ c ≠ '"' ∧ c ≠ '\\'

/-- what stands between the quotes of a string spells this text: each character as it is, by a short escape, by its unit,
or by its two surrogates -/
inductive Spells : List Char → List Char → Prop where
  | done : Spells [] []
  | plain {c : Char} {body text : List Char} : IsPlain c → Spells body text → Spells (c :: body) (c :: text)
  | short {e c : Char} {body text : List Char} :
    (e, c) ∈ shortEscapes → Spells body text → Spells ('\\' :: e :: body) (c :: text)
  | unit {digits : List Char} {c : Char} {body text : List Char} :
    Hex digits c.toNat → Spells body text → Spells ('\\' :: 'u' :: (digits ++ body)) (c :: text)
  | pair {digits digits' : List Char} {high low : Nat} {c : Char} {body text : List Char} :
    Hex digits high → 0xD800 ≤ high ∧ high < 0xDC00 → Hex digits' low → 0xDC00 ≤ low ∧ low < 0xE000 →
      c.toNat = 0x10000 + (high - 0xD800) * 0x400 + (low - 0xDC00) → Spells body text →
        Spells ('\\' :: 'u' :: (digits ++ '\\' :: 'u' :: (digits' ++ body))) (c :: text)

/-- what stands between the quotes of a string: characters as they are, short escapes, and units -/
inductive IsBody : List Char → List Code → Prop where
  | done : IsBody [] []
  | plain {c : Char} {body : List Char} {cs : List Code} : IsPlain c → IsBody body cs → IsBody (c :: body) (.char c :: cs)
  | short {e c : Char} {body : List Char} {cs : List Code} :
    (e, c) ∈ shortEscapes → IsBody body cs → IsBody ('\\' :: e :: body) (.char c :: cs)
  | unit {digits : List Char} {n : Nat} {body : List Char} {cs : List Code} :
    Hex digits n → IsBody body cs → IsBody ('\\' :: 'u' :: (digits ++ body)) (.unit n :: cs)

theorem codes_plain {c : Char} (h : IsPlain c) (rest : List Char) :
    codes (c :: rest) = (codes rest).map fun r => (.char c :: r.1, r.2) := by
  obtain ⟨hc, hquote, hback⟩ := h
  rw [codes.eq_def]
  split
  · rename_i heq
    exact absurd (List.cons.inj heq).1 hquote
  · rename_i heq
    exact absurd (List.cons.inj heq).1 hback
  · rename_i heq
    exact absurd (List.cons.inj heq).1 hback
  · rename_i heq
    obtain ⟨rfl, rfl⟩ := List.cons.inj heq
    rw [if_neg (by simp [hback, hc])]
  · rename_i heq
    cases heq

theorem codes_short {e c : Char} (h : (e, c) ∈ shortEscapes) (rest : List Char) :
    codes ('\\' :: e :: rest) = (codes rest).map fun r => (.char c :: r.1, r.2) := by
  simp only [shortEscapes, List.mem_cons, Prod.mk.injEq, List.not_mem_nil, or_false] at h
  rcases h with ⟨rfl, rfl⟩ | ⟨rfl, rfl⟩ | ⟨rfl, rfl⟩ | ⟨rfl, rfl⟩ | ⟨rfl, rfl⟩ | ⟨rfl, rfl⟩ | ⟨rfl, rfl⟩ | ⟨rfl, rfl⟩ <;>
    rfl

theorem codes_unit {digits : List Char} {n : Nat} (h : Hex digits n) (rest : List Char) :
    codes ('\\' :: 'u' :: (digits ++ rest)) = (codes rest).map fun r => (.unit n :: r.1, r.2) := by
  obtain ⟨a, b, c, d, a', b', c', d', rfl, ha, hb, hc, hd, rfl⟩ := h
  simp [codes, ha, hb, hc, hd]

/-- what stands between the quotes of a string is read up to the closing one -/
theorem codes_of_isBody {body : List Char} {cs : List Code} (h : IsBody body cs) (rest : List Char) :
    codes (body ++ '"' :: rest) = some (cs, rest) := by
  induction h with
  | done => rfl
  | plain hc _ ih => rw [List.cons_append, codes_plain hc, ih, Option.map_some]
  | short hc _ ih => rw [List.cons_append, List.cons_append, codes_short hc, ih, Option.map_some]
  | unit hn _ ih =>
    rw [List.cons_append, List.cons_append, List.append_assoc, codes_unit hn, ih, Option.map_some]

theorem textOfCodes_char (c : Char) (cs : List Code) : textOfCodes (.char c :: cs) = (textOfCodes cs).map (c :: ·) := rfl

/-- a unit that is no surrogate is a character by itself, whatever follows it -/
theorem textOfCodes_unit (c : Char) (cs : List Code) :
    textOfCodes (.unit c.toNat :: cs) = (textOfCodes cs).map (c :: ·) := by
  have hv : c.toNat < 0xD800 ∨ 0xDFFF < c.toNat ∧ c.toNat < 0x110000 := c.valid
  have hhigh : ¬ (0xD800 ≤ c.toNat ∧ c.toNat < 0xDC00) := by omega
  have hlow : ¬ (0xDC00 ≤ c.toNat ∧ c.toNat < 0xE000) := by omega
  have hany : ¬ (0xD800 ≤ c.toNat ∧ c.toNat < 0xE000) := by omega
  rcases cs with _ | ⟨_ | v, cs⟩ <;>
    simp only [textOfCodes, Bool.and_eq_true, decide_eq_true_eq, hhigh, hlow, hany, if_false, Char.ofNat_toNat]

/-- two surrogates are the character that they stand for -/
theorem textOfCodes_pair {high low : Nat} (hh : 0xD800 ≤ high ∧ high < 0xDC00) (hl : 0xDC00 ≤ low ∧ low < 0xE000)
    (cs : List Code) : textOfCodes (.unit high :: .unit low :: cs) =
      (textOfCodes cs).map (Char.ofNat (0x10000 + (high - 0xD800) * 0x400 + (low - 0xDC00)) :: ·) := by
  simp [textOfCodes, hh, hl]

/-- a text that is spelled is that of its codes -/
theorem isBody_of_spells {body text : List Char} (h : Spells body text) :
    ∃ cs, IsBody body cs ∧ textOfCodes cs = some text := by
  induction h with
  | done => exact ⟨[], .done, rfl⟩
  | plain hc _ ih =>
    obtain ⟨cs, hbody, htext⟩ := ih
    exact ⟨_, .plain hc hbody, by rw [textOfCodes_char, htext, Option.map_some]⟩
  | short hc _ ih =>
    obtain ⟨cs, hbody, htext⟩ := ih
    exact ⟨_, .short hc hbody, by rw [textOfCodes_char, htext, Option.map_some]⟩
  | unit hn _ ih =>
    obtain ⟨cs, hbody, htext⟩ := ih
    exact ⟨_, .unit hn hbody, by rw [textOfCodes_unit, htext, Option.map_some]⟩
  | pair hdigits hh hdigits' hl hc _ ih =>
    obtain ⟨cs, hbody, htext⟩ := ih
    refine ⟨_, .unit hdigits (.unit hdigits' hbody), ?_⟩
    rw [textOfCodes_pair hh hl, htext, Option.map_some, ← hc, Char.ofNat_toNat]

theorem hexValue?_lt {c : Char} {n : Nat} (h : hexValue? c = some n) : n < 16 := by
  unfold hexValue? at h
  simp only [Bool.and_eq_true, decide_eq_true_eq, Char.le_def, UInt32.le_iff_toNat_le] at h
  have hv : c.val.toNat = c.toNat := rfl
  have hnine : '9'.val.toNat = 57 := rfl
  have hsmall : 'f'.val.toNat = 102 := rfl
  have hlarge : 'F'.val.toNat = 70 := rfl
  split_ifs at h <;> obtain rfl := Option.some.inj h <;> omega

theorem Hex.lt {digits : List Char} {n : Nat} (h : Hex digits n) : n < 0x10000 := by
  obtain ⟨a, b, c, d, a', b', c', d', -, ha, hb, hc, hd, rfl⟩ := h
  have := hexValue?_lt ha
  have := hexValue?_lt hb
  have := hexValue?_lt hc
  have := hexValue?_lt hd
  omega

theorem toNat_charOfNat {n : Nat} (h : n.isValidChar) : (Char.ofNat n).toNat = n := by
  rw [Char.ofNat, dif_pos h]
  rfl

/-- a unit that is no surrogate is the code point of a character -/
theorem toNat_charOfNat_unit {n : Nat} (hn : n < 0x10000) (hs : ¬ (0xD800 ≤ n ∧ n < 0xE000)) :
    (Char.ofNat n).toNat = n := by
  apply toNat_charOfNat
  unfold Nat.isValidChar
  omega

/-- the text of codes is spelled by what they stand in -/
theorem spells_of_isBody {cs : List Code} {body text : List Char} (h : IsBody body cs) (htext : textOfCodes cs = some text) :
    Spells body text := by
  induction cs using textOfCodes.induct generalizing body text with
  | case1 =>
    cases h
    cases htext
    exact .done
  | case2 c cs ih =>
    rw [textOfCodes, Option.map_eq_some_iff] at htext
    obtain ⟨text, htext, rfl⟩ := htext
    cases h with
    | plain hc hbody => exact .plain hc (ih hbody htext)
    | short hc hbody => exact .short hc (ih hbody htext)
  | case3 high low cs hh hl ih =>
    rw [textOfCodes, if_pos hh, if_pos hl, Option.map_eq_some_iff] at htext
    obtain ⟨text, htext, rfl⟩ := htext
    simp only [Bool.and_eq_true, decide_eq_true_eq] at hh hl
    cases h with
    | unit hdigits hbody =>
      cases hbody with
      | unit hdigits' hbody =>
        refine .pair hdigits hh hdigits' hl (toNat_charOfNat ?_) (ih hbody htext)
        unfold Nat.isValidChar
        omega
  | case4 high v cs hh hl =>
    rw [textOfCodes, if_pos hh, if_neg hl] at htext
    cases htext
  | case5 u v cs hh hl =>
    rw [textOfCodes, if_neg hh, if_pos hl] at htext
    cases htext
  | case6 u v cs hh hl ih =>
    rw [textOfCodes, if_neg hh, if_neg hl, Option.map_eq_some_iff] at htext
    obtain ⟨text, htext, rfl⟩ := htext
    simp only [Bool.and_eq_true, decide_eq_true_eq] at hh hl
    cases h with
    | unit hdigits hbody =>
      have hu : (Char.ofNat u).toNat = u := toNat_charOfNat_unit hdigits.lt (by omega)
      exact .unit (hu.symm ▸ hdigits) (ih hbody htext)
  | case7 u cs hcs hs =>
    rw [textOfCodes, if_pos hs] at htext
    · cases htext
    · exact hcs
  | case8 u cs hcs hs ih =>
    rw [textOfCodes, if_neg hs, Option.map_eq_some_iff] at htext
    · obtain ⟨text, htext, rfl⟩ := htext
      simp only [Bool.and_eq_true, decide_eq_true_eq] at hs
      cases h with
      | unit hdigits hbody =>
        have hu : (Char.ofNat u).toNat = u := toNat_charOfNat_unit hdigits.lt hs
        exact .unit (hu.symm ▸ hdigits) (ih hbody htext)
    · exact hcs

/-- what stands between the quotes of a string, and its text; there is none when the codes spell no text -/
inductive IsString : List Char → Option String → Prop where
  | text {body text : List Char} : Spells body text → IsString body (some (String.ofList text))
  | unpaired {body : List Char} {cs : List Code} : IsBody body cs → (∀ text, ¬ Spells body text) → IsString body none

/-- **A string is read up to its closing quote** -/
theorem stringBody_of_isString {body : List Char} {text : Option String} (h : IsString body text) (rest : List Char) :
    stringBody (body ++ '"' :: rest) = some (text, rest) := by
  have hread : ∀ {cs : List Code}, IsBody body cs →
      stringBody (body ++ '"' :: rest) = some ((textOfCodes cs).map String.ofList, rest) := by
    intro cs hbody
    rw [stringBody, codes_of_isBody hbody]
    rfl
  cases h with
  | text hspells =>
    obtain ⟨cs, hbody, htext⟩ := isBody_of_spells hspells
    rw [hread hbody, htext, Option.map_some]
  | @unpaired cs hbody hno =>
    have htext : textOfCodes cs = none := by
      cases hcs : textOfCodes cs with
      | none => rfl
      | some text => exact absurd (spells_of_isBody hbody hcs) (hno text)
    rw [hread hbody, htext, Option.map_none]

theorem mem_shortEscapes {e c : Char} (h : escaped? e = some c) : (e, c) ∈ shortEscapes := by
  unfold escaped? at h
  split at h <;> cases h <;> decide

/-- what is read before the closing quote is what stands between the quotes of a string -/
theorem isBody_of_codes {text rest : List Char} {cs : List Code} (h : codes text = some (cs, rest)) :
    ∃ body, IsBody body cs ∧ text = body ++ '"' :: rest := by
  fun_induction codes text generalizing cs rest with
  | case1 =>
    cases h
    exact ⟨[], .done, rfl⟩
  | case2 a b c d more a' b' c' d' hd hc hb ha ih =>
    obtain ⟨⟨us, _⟩, hread, heq⟩ := Option.map_eq_some_iff.1 h
    cases heq
    obtain ⟨body, hbody, rfl⟩ := ih hread
    have hdigits : Hex [a, b, c, d] (((a' * 16 + b') * 16 + c') * 16 + d') := ⟨_, _, _, _, _, _, _, _, rfl, ha, hb, hc, hd, rfl⟩
    exact ⟨_, .unit hdigits hbody, rfl⟩
  | case3 => cases h
  | case4 e more _ c he ih =>
    obtain ⟨⟨us, _⟩, hread, heq⟩ := Option.map_eq_some_iff.1 h
    cases heq
    obtain ⟨body, hbody, rfl⟩ := ih hread
    exact ⟨_, .short (mem_shortEscapes he) hbody, rfl⟩
  | case5 => cases h
  | case6 => cases h
  | case7 c more hquote _ _ hc ih =>
    obtain ⟨⟨us, _⟩, hread, heq⟩ := Option.map_eq_some_iff.1 h
    cases heq
    obtain ⟨body, hbody, rfl⟩ := ih hread
    simp only [Bool.or_eq_true, decide_eq_true_eq, not_or, Nat.not_lt] at hc
    exact ⟨_, .plain ⟨hc.1, hquote, hc.2⟩ hbody, rfl⟩
  | case8 => cases h

/-- what stands between the quotes of a string has its codes only -/
theorem IsBody.unique {body : List Char} {cs cs' : List Code} (h : IsBody body cs) (h' : IsBody body cs') : cs = cs' := by
  have hread := codes_of_isBody h []
  rw [codes_of_isBody h' []] at hread
  cases hread
  rfl

/-- **What is read up to a closing quote is a string** -/
theorem isString_of_stringBody {cs rest : List Char} {text : Option String} (h : stringBody cs = some (text, rest)) :
    ∃ body, IsString body text ∧ cs = body ++ '"' :: rest := by
  obtain ⟨⟨us, _⟩, hread, heq⟩ := Option.map_eq_some_iff.1 h
  cases heq
  obtain ⟨body, hbody, rfl⟩ := isBody_of_codes hread
  refine ⟨body, ?_, rfl⟩
  cases htext : textOfCodes us with
  | some text => exact .text (spells_of_isBody hbody htext)
  | none =>
    refine .unpaired hbody fun text hspells => ?_
    obtain ⟨cs, hbody', htext'⟩ := isBody_of_spells hspells
    rw [hbody'.unique hbody, htext] at htext'
    cases htext'

/-! ## Numbers -/

/-- digits, at least one -/
def IsDigits (ds : List Char) : Prop := ds ≠ [] ∧ ∀ c ∈ ds, c.isDigit = true

/-- the digits before the point: a zero by itself, or digits that do not start with one -/
def IsWhole (ds : List Char) : Prop := ds = ['0'] ∨ IsDigits ds ∧ ds.head? ≠ some '0'

/-- the point and the digits behind it, which may both be left out -/
inductive IsFraction : List Char → Option (List Char) → Prop where
  | absent : IsFraction [] none
  | digits {ds : List Char} : IsDigits ds → IsFraction ('.' :: ds) (some ds)

/-- the exponent, which may be left out, and have a sign -/
inductive IsExponent : List Char → Option (Bool × List Char) → Prop where
  | absent : IsExponent [] none
  | unsigned {e : Char} {ds : List Char} : e = 'e' ∨ e = 'E' → IsDigits ds → IsExponent (e :: ds) (some (false, ds))
  | plus {e : Char} {ds : List Char} : e = 'e' ∨ e = 'E' → IsDigits ds → IsExponent (e :: '+' :: ds) (some (false, ds))
  | minus {e : Char} {ds : List Char} : e = 'e' ∨ e = 'E' → IsDigits ds → IsExponent (e :: '-' :: ds) (some (true, ds))

/-- a number, part by part -/
inductive IsNumber : List Char → Number → Prop where
  | mk (negative : Bool) {whole : List Char} {fraction exponent : List Char} {ds : Option (List Char)}
    {power : Option (Bool × List Char)} : IsWhole whole → IsFraction fraction ds → IsExponent exponent power →
      IsNumber ((if negative then ['-'] else []) ++ (whole ++ (fraction ++ exponent))) ⟨negative, whole, ds, power⟩

/-- what follows does not go on with digits -/
def NoDigit (rest : List Char) : Prop := ∀ c ∈ rest.head?, c.isDigit = false

/-- what follows does not go on with a number -/
def EndsNumber (rest : List Char) : Prop := ∀ c ∈ rest.head?, c.isDigit = false ∧ c ≠ '.' ∧ c ≠ 'e' ∧ c ≠ 'E'

theorem EndsNumber.noDigit {rest : List Char} (h : EndsNumber rest) : NoDigit rest := fun c hc => (h c hc).1

theorem ne_of_isDigit {d c : Char} (hd : d.isDigit = true) (hc : c.isDigit = false) : d ≠ c := by
  rintro rfl
  rw [hd] at hc
  cases hc

theorem someDigits_append {ds rest : List Char} (hds : IsDigits ds) (hrest : NoDigit rest) :
    someDigits (ds ++ rest) = some (ds, rest) := by
  obtain ⟨hne, hdigits⟩ := hds
  have htake : (ds ++ rest).takeWhile Char.isDigit = ds := by
    rw [List.takeWhile_append_of_pos hdigits]
    cases rest with
    | nil => simp
    | cons c rest => simp [hrest c rfl]
  have hdrop : (ds ++ rest).dropWhile Char.isDigit = rest := by
    rw [List.dropWhile_append_of_pos hdigits]
    cases rest with
    | nil => rfl
    | cons c rest => simp [hrest c rfl]
  unfold someDigits
  rw [htake, hdrop]
  cases ds with
  | nil => exact absurd rfl hne
  | cons d ds => rfl

theorem wholeDigits_append {ds rest : List Char} (hds : IsWhole ds) (hrest : NoDigit rest) :
    wholeDigits (ds ++ rest) = some (ds, rest) := by
  rcases hds with rfl | ⟨hds, hzero⟩
  · rfl
  · obtain ⟨d, ds, rfl⟩ := List.exists_cons_of_ne_nil hds.1
    have hd : d ≠ '0' := by simpa using hzero
    have hread : wholeDigits (d :: ds ++ rest) = someDigits (d :: ds ++ rest) := by
      rw [List.cons_append, wholeDigits.eq_def]
      split
      · rename_i heq
        exact absurd (List.cons.inj heq).1 hd
      · rfl
    rw [hread, someDigits_append hds hrest]

theorem fractionPart_append {text rest : List Char} {ds : Option (List Char)} (h : IsFraction text ds)
    (hdigit : NoDigit rest) (hpoint : rest.head? ≠ some '.') : fractionPart (text ++ rest) = some (ds, rest) := by
  cases h with
  | absent =>
    unfold fractionPart
    split
    · rename_i heq
      have hhead : rest.head? = some '.' := by
        rw [← List.nil_append rest, heq]
        rfl
      exact absurd hhead hpoint
    · rfl
  | digits hds => rw [List.cons_append, fractionPart, someDigits_append hds hdigit, Option.map_some]

theorem exponentPart_append {text rest : List Char} {power : Option (Bool × List Char)} (h : IsExponent text power)
    (hrest : EndsNumber rest) : exponentPart (text ++ rest) = some (power, rest) := by
  cases h with
  | absent =>
    cases rest with
    | nil => rfl
    | cons c rest =>
      obtain ⟨-, -, hlower, hupper⟩ := hrest c rfl
      simp [exponentPart, hlower, hupper]
  | @unsigned e ds he hds =>
    have hread : exponentPart (e :: (ds ++ rest)) =
        (someDigits (ds ++ rest)).map fun r => (some (false, r.1), r.2) := by
      obtain ⟨d, ds, rfl⟩ := List.exists_cons_of_ne_nil hds.1
      have hd : d.isDigit = true := hds.2 d (List.mem_cons_self ..)
      have hminus : d ≠ '-' := ne_of_isDigit hd rfl
      have hplus : d ≠ '+' := ne_of_isDigit hd rfl
      rcases he with rfl | rfl <;> simp [exponentPart, hminus, hplus]
    rw [List.cons_append, hread, someDigits_append hds hrest.noDigit, Option.map_some]
  | plus he hds =>
    rcases he with rfl | rfl <;> simp [exponentPart, someDigits_append hds hrest.noDigit]
  | minus he hds =>
    rcases he with rfl | rfl <;> simp [exponentPart, someDigits_append hds hrest.noDigit]

/-- what may follow the digits of a number, when it is an exponent or the end -/
theorem exponent_head {text rest : List Char} {power : Option (Bool × List Char)} (h : IsExponent text power)
    (hrest : EndsNumber rest) : NoDigit (text ++ rest) ∧ (text ++ rest).head? ≠ some '.' := by
  have hletter : ∀ {e : Char} {more : List Char}, e = 'e' ∨ e = 'E' →
      NoDigit (e :: more) ∧ (e :: more).head? ≠ some '.' := by
    rintro e more (rfl | rfl)
    · exact ⟨by simp [NoDigit], by simp⟩
    · exact ⟨by simp [NoDigit], by simp⟩
  cases h with
  | absent =>
    refine ⟨hrest.noDigit, fun hpoint => ?_⟩
    exact (hrest '.' hpoint).2.1 rfl
  | unsigned he _ => exact hletter he
  | plus he _ => exact hletter he
  | minus he _ => exact hletter he

theorem numberFrom_append (negative : Bool) {whole fraction exponent rest : List Char} {ds : Option (List Char)}
    {power : Option (Bool × List Char)} (hw : IsWhole whole) (hf : IsFraction fraction ds) (he : IsExponent exponent power)
    (hrest : EndsNumber rest) :
    numberFrom negative (whole ++ (fraction ++ (exponent ++ rest))) = some (⟨negative, whole, ds, power⟩, rest) := by
  obtain ⟨hdigit, hpoint⟩ := exponent_head he hrest
  have hfraction : NoDigit (fraction ++ (exponent ++ rest)) := by
    cases hf with
    | absent => exact hdigit
    | digits _ => simp [NoDigit]
  unfold numberFrom
  simp [wholeDigits_append hw hfraction, fractionPart_append hf hdigit hpoint, exponentPart_append he hrest]

theorem IsWhole.exists_cons {ds : List Char} (h : IsWhole ds) : ∃ d more, ds = d :: more ∧ d.isDigit = true := by
  rcases h with rfl | ⟨⟨hne, hdigits⟩, -⟩
  · exact ⟨'0', [], rfl, rfl⟩
  · obtain ⟨d, more, rfl⟩ := List.exists_cons_of_ne_nil hne
    exact ⟨d, more, rfl, hdigits d (List.mem_cons_self ..)⟩

/-- a number starts with a minus sign or a digit -/
theorem IsNumber.exists_cons {text : List Char} {n : Number} (h : IsNumber text n) :
    ∃ c more, text = c :: more ∧ (c = '-' ∨ c.isDigit = true) := by
  cases h with
  | mk negative hw _ _ =>
    cases negative with
    | true => exact ⟨'-', _, rfl, .inl rfl⟩
    | false =>
      obtain ⟨d, more, rfl, hd⟩ := hw.exists_cons
      exact ⟨d, _, rfl, .inr hd⟩

/-- **A number is read up to what does not go on with it** -/
theorem numeral_append {text rest : List Char} {n : Number} (h : IsNumber text n) (hrest : EndsNumber rest) :
    numeral (text ++ rest) = some (n, rest) := by
  cases h with
  | @mk negative whole fraction exponent _ _ hw hf he =>
    have hread : numeral ((if negative then ['-'] else []) ++ (whole ++ (fraction ++ (exponent ++ rest)))) =
        numberFrom negative (whole ++ (fraction ++ (exponent ++ rest))) := by
      cases negative with
      | true => rfl
      | false =>
        obtain ⟨d, more, rfl, hd⟩ := hw.exists_cons
        have hminus : d ≠ '-' := ne_of_isDigit hd rfl
        simp [numeral, hminus]
    simp only [List.append_assoc]
    rw [hread, numberFrom_append negative hw hf he hrest]

theorem isDigits_of_someDigits {cs ds rest : List Char} (h : someDigits cs = some (ds, rest)) :
    IsDigits ds ∧ cs = ds ++ rest := by
  unfold someDigits at h
  split at h
  · cases h
  · rename_i hne
    cases h
    refine ⟨⟨hne, fun c hc => ?_⟩, (List.takeWhile_append_dropWhile ..).symm⟩
    exact List.mem_takeWhile_imp hc

theorem isWhole_of_wholeDigits {cs ds rest : List Char} (h : wholeDigits cs = some (ds, rest)) :
    IsWhole ds ∧ cs = ds ++ rest := by
  unfold wholeDigits at h
  split at h
  · cases h
    exact ⟨.inl rfl, rfl⟩
  · rename_i hzero
    obtain ⟨hds, rfl⟩ := isDigits_of_someDigits h
    obtain ⟨d, more, rfl⟩ := List.exists_cons_of_ne_nil hds.1
    refine ⟨.inr ⟨hds, fun hhead => ?_⟩, rfl⟩
    obtain rfl : d = '0' := Option.some.inj hhead
    exact hzero _ rfl

theorem isFraction_of_fractionPart {cs rest : List Char} {ds : Option (List Char)} (h : fractionPart cs = some (ds, rest)) :
    ∃ text, IsFraction text ds ∧ cs = text ++ rest := by
  unfold fractionPart at h
  split at h
  · obtain ⟨⟨ds, _⟩, hread, heq⟩ := Option.map_eq_some_iff.1 h
    cases heq
    obtain ⟨hds, rfl⟩ := isDigits_of_someDigits hread
    exact ⟨_, .digits hds, rfl⟩
  · cases h
    exact ⟨[], .absent, rfl⟩

theorem isExponent_of_exponentPart {cs rest : List Char} {power : Option (Bool × List Char)}
    (h : exponentPart cs = some (power, rest)) : ∃ text, IsExponent text power ∧ cs = text ++ rest := by
  unfold exponentPart at h
  split at h
  · rename_i e more
    split_ifs at h with he
    · simp only [Bool.or_eq_true, decide_eq_true_eq] at he
      split at h
      · obtain ⟨⟨ds, _⟩, hread, heq⟩ := Option.map_eq_some_iff.1 h
        cases heq
        obtain ⟨hds, rfl⟩ := isDigits_of_someDigits hread
        exact ⟨_, .minus he hds, rfl⟩
      · obtain ⟨⟨ds, _⟩, hread, heq⟩ := Option.map_eq_some_iff.1 h
        cases heq
        obtain ⟨hds, rfl⟩ := isDigits_of_someDigits hread
        exact ⟨_, .plus he hds, rfl⟩
      · obtain ⟨⟨ds, _⟩, hread, heq⟩ := Option.map_eq_some_iff.1 h
        cases heq
        obtain ⟨hds, rfl⟩ := isDigits_of_someDigits hread
        exact ⟨_, .unsigned he hds, rfl⟩
    · cases h
      exact ⟨[], .absent, rfl⟩
  · cases h
    exact ⟨[], .absent, rfl⟩

theorem isNumber_of_numberFrom {negative : Bool} {cs rest : List Char} {n : Number}
    (h : numberFrom negative cs = some (n, rest)) :
    ∃ text, IsNumber ((if negative then ['-'] else []) ++ text) n ∧ cs = text ++ rest := by
  unfold numberFrom at h
  simp only [Option.bind_eq_bind, Option.bind_eq_some_iff] at h
  obtain ⟨⟨whole, _⟩, hw, ⟨ds, _⟩, hf, ⟨power, _⟩, he, heq⟩ := h
  cases heq
  obtain ⟨hwhole, rfl⟩ := isWhole_of_wholeDigits hw
  obtain ⟨fraction, hfraction, rfl⟩ := isFraction_of_fractionPart hf
  obtain ⟨exponent, hexponent, rfl⟩ := isExponent_of_exponentPart he
  refine ⟨_, .mk negative hwhole hfraction hexponent, ?_⟩
  simp only [List.append_assoc]

/-- **What is read as a number is one** -/
theorem isNumber_of_numeral {cs rest : List Char} {n : Number} (h : numeral cs = some (n, rest)) :
    ∃ text, IsNumber text n ∧ cs = text ++ rest := by
  unfold numeral at h
  split at h
  · obtain ⟨text, htext, rfl⟩ := isNumber_of_numberFrom h
    exact ⟨_, htext, rfl⟩
  · obtain ⟨text, htext, rfl⟩ := isNumber_of_numberFrom h
    exact ⟨_, htext, rfl⟩

end ImportHarvest.Json

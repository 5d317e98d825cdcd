import ImportHarvest.Proofs.JsonText
/-!
What is JSON text.

`Writes` says what writes a value, with blanks around it or around its parts, in any spelling of its strings. A value is
read from what writes it and from nothing else (`parse?_eq_some_iff`).

Reading back goes by induction on how the text is written. It carries that a number is followed by what does not go on
with it, and that blanks behind a value may be left for the next reader (`Reads`). That nothing else is read goes by
induction on the steps that the reader counts down (`Sound`); blanks in front of a value are taken as part of what writes
it, and so are those behind an item.
-/

namespace ImportHarvest.Json

open Text

/-! ## Values -/

/-- the name of a member: a string, blanks around it apart -/
def IsName (text : List Char) (name : Option String) : Prop :=
  ∃ before body after, Blanks before ∧ IsString body name ∧ Blanks after ∧ text = before ++ '"' :: (body ++ '"' :: after)

/-- what writes a value. Blanks may stand around every value and inside an empty list or object. The items of a list and
the members of an object have commas between them, and a member a colon between its name and its value. -/
inductive Writes : List Char → Json → Prop where
  | null : Writes "null".toList .null
  | true : Writes "true".toList (.bool true)
  | false : Writes "false".toList (.bool false)
  | number {text : List Char} {n : Number} : IsNumber text n → Writes text (.number n)
  | string {body : List Char} {text : Option String} : IsString body text → Writes ('"' :: (body ++ ['"'])) (.string text)
  | spaced {before text after : List Char} {j : Json} :
    Blanks before → Writes text j → Blanks after → Writes (before ++ (text ++ after)) j
  | emptyList {blanks : List Char} : Blanks blanks → Writes ('[' :: (blanks ++ [']'])) (.list [])
  | list {parts : List (List Char × Json)} :
    parts ≠ [] → (∀ p ∈ parts, Writes p.1 p.2) →
      Writes ('[' :: (glue [','] (parts.map fun p => p.1) ++ [']'])) (.list (parts.map fun p => p.2))
  | emptyObject {blanks : List Char} : Blanks blanks → Writes ('\x7b' :: (blanks ++ ['\x7d'])) (.object [])
  | object {parts : List ((List Char × Option String) × (List Char × Json))} :
    parts ≠ [] → (∀ p ∈ parts, IsName p.1.1 p.1.2) → (∀ p ∈ parts, Writes p.2.1 p.2.2) →
      Writes ('\x7b' :: (glue [','] (parts.map fun p => p.1.1 ++ ':' :: p.2.1) ++ ['\x7d']))
        (.object (parts.map fun p => (p.1.2, p.2.2)))

/-- a text is read as a value before all that does not go on with a number, in steps that its length bounds; blanks that
follow it may be left -/
def Reads (text : List Char) (j : Json) : Prop :=
  ∀ steps rest, 2 * text.length ≤ steps → EndsNumber rest →
    ∃ rest', value steps (text ++ rest) = some (j, rest') ∧ skipSpaces rest' = skipSpaces rest

theorem value_congr {cs cs' : List Char} (h : skipSpaces cs = skipSpaces cs') (steps : Nat) :
    value steps cs = value steps cs' := by
  cases steps with
  | zero => rw [value, value]
  | succ steps => rw [value, value, h]

theorem EndsNumber.blanks {blanks rest : List Char} (h : Blanks blanks) (hrest : EndsNumber rest) :
    EndsNumber (blanks ++ rest) := by
  cases blanks with
  | nil => exact hrest
  | cons c blanks =>
    intro d hd
    obtain rfl : c = d := by simpa using hd
    have hc : isSpace c = true := h c (List.mem_cons_self ..)
    simp only [isSpace, Bool.or_eq_true, decide_eq_true_eq] at hc
    rcases hc with ((rfl | rfl) | rfl) | rfl <;> decide

/-- blanks around a text that is read -/
theorem Reads.spaced {before text after : List Char} {j : Json} (hb : Blanks before) (h : Reads text j) (ha : Blanks after) :
    Reads (before ++ (text ++ after)) j := by
  intro steps rest hsteps hrest
  simp only [List.length_append] at hsteps
  obtain ⟨rest', hread, hleft⟩ := h steps (after ++ rest) (by omega) (EndsNumber.blanks ha hrest)
  refine ⟨rest', ?_, hleft.trans (skipSpaces_append ha rest)⟩
  have hskip : skipSpaces (before ++ (text ++ after) ++ rest) = skipSpaces (text ++ (after ++ rest)) := by
    rw [List.append_assoc, List.append_assoc, skipSpaces_append hb]
  rw [value_congr hskip, hread]

theorem isSpace_of_isDigit {c : Char} (h : c.isDigit = true) : isSpace c = false := by
  have hspace : c ≠ ' ' := ne_of_isDigit h rfl
  have htab : c ≠ '\t' := ne_of_isDigit h rfl
  have hfeed : c ≠ '\n' := ne_of_isDigit h rfl
  have hreturn : c ≠ '\r' := ne_of_isDigit h rfl
  simp [isSpace, hspace, htab, hfeed, hreturn]

/-- a text is read when what is behind its first character is, in the steps that are left -/
theorem Reads.of_start {c : Char} {more : List Char} {j : Json}
    (h : ∀ steps rest, 2 * more.length < steps → EndsNumber rest →
      value (steps + 1) (c :: (more ++ rest)) = some (j, rest)) : Reads (c :: more) j := by
  intro steps rest hsteps hrest
  rw [List.length_cons] at hsteps
  obtain ⟨k, rfl⟩ : ∃ k, steps = k + 1 := Nat.exists_eq_succ_of_ne_zero (by omega)
  exact ⟨rest, h k rest (by omega) hrest, rfl⟩

theorem Reads.number {text : List Char} {n : Number} (h : IsNumber text n) : Reads text (.number n) := by
  obtain ⟨c, more, rfl, hc⟩ := h.exists_cons
  have hspace : isSpace c = false := by
    rcases hc with rfl | hc
    · rfl
    · exact isSpace_of_isDigit hc
  have hother : ∀ d : Char, d ≠ '-' → d.isDigit = false → c ≠ d := by
    intro d hd hdigit
    rcases hc with rfl | hc
    · exact hd.symm
    · exact ne_of_isDigit hc hdigit
  apply Reads.of_start
  intro steps rest _ hrest
  have hnumeral : numeral (c :: (more ++ rest)) = some (n, rest) := numeral_append h hrest
  rw [value.eq_def]
  dsimp only
  rw [skipSpaces_of_not_space hspace]
  simp [hother '"', hother '[', hother '\x7b', hc, hnumeral]

theorem Reads.string {body : List Char} {text : Option String} (h : IsString body text) :
    Reads ('"' :: (body ++ ['"'])) (.string text) := by
  apply Reads.of_start
  intro steps rest _ _
  have hread : value (steps + 1) ('"' :: (body ++ '"' :: rest)) =
      (stringBody (body ++ '"' :: rest)).map fun r => (.string r.1, r.2) := rfl
  rw [List.append_assoc, List.singleton_append, hread, stringBody_of_isString h, Option.map_some]

/-- one of the three words is read -/
theorem Reads.word {c : Char} {more : List Char} {j : Json} (hc : c ∉ ['"', '[', '\x7b', '-']) (hspace : isSpace c = false)
    (hdigit : c.isDigit = false) (h : ∀ rest, word (c :: (more ++ rest)) = some (j, rest)) : Reads (c :: more) j := by
  apply Reads.of_start
  intro steps rest _ _
  rw [← h rest, value.eq_def]
  dsimp only
  rw [skipSpaces_of_not_space hspace]
  simp only [List.mem_cons, List.not_mem_nil, or_false, not_or] at hc
  simp [hc, hdigit]

theorem reads_null : Reads "null".toList .null := Reads.word (by decide) (by decide) (by decide) fun _ => rfl

theorem reads_true : Reads "true".toList (.bool true) := Reads.word (by decide) (by decide) (by decide) fun _ => rfl

theorem reads_false : Reads "false".toList (.bool false) := Reads.word (by decide) (by decide) (by decide) fun _ => rfl

/-! ## Lists and objects -/

theorem items_skipSpaces (steps : Nat) (cs : List Char) : items steps (skipSpaces cs) = items steps cs := by
  cases steps with
  | zero => rw [items, items]
  | succ steps => rw [items, items, value_congr (skipSpaces_skipSpaces cs)]

theorem members_skipSpaces (steps : Nat) (cs : List Char) : members steps (skipSpaces cs) = members steps cs := by
  cases steps with
  | zero => rw [members, members]
  | succ steps => rw [members, members, skipSpaces_skipSpaces]

/-- the items of a list are not read as none -/
theorem items_close {cs more : List Char} (h : skipSpaces cs = ']' :: more) (steps : Nat) : items steps cs = none := by
  rw [← items_skipSpaces, h]
  rcases steps with _ | _ | steps <;> rfl

theorem members_close {cs more : List Char} (h : skipSpaces cs = '\x7d' :: more) (steps : Nat) :
    members steps cs = none := by
  rw [← members_skipSpaces, h]
  cases steps <;> rfl

theorem value_list {steps : Nat} {cs rest : List Char} {js : List Json} (h : items steps cs = some (js, rest)) :
    value (steps + 1) ('[' :: cs) = some (.list js, rest) := by
  have hskip : skipSpaces ('[' :: cs) = '[' :: cs := skipSpaces_of_not_space rfl cs
  simp only [value, hskip]
  split
  · rename_i heq
    rw [items_close heq] at h
    cases h
  · rw [items_skipSpaces, h, Option.map_some]

theorem value_object {steps : Nat} {cs rest : List Char} {ms : List (Option String × Json)}
    (h : members steps cs = some (ms, rest)) : value (steps + 1) ('\x7b' :: cs) = some (.object ms, rest) := by
  have hskip : skipSpaces ('\x7b' :: cs) = '\x7b' :: cs := skipSpaces_of_not_space rfl cs
  simp only [value, hskip]
  split
  · rename_i heq
    rw [members_close heq] at h
    cases h
  · rw [members_skipSpaces, h, Option.map_some]

theorem Reads.emptyList {blanks : List Char} (h : Blanks blanks) : Reads ('[' :: (blanks ++ [']'])) (.list []) := by
  apply Reads.of_start
  intro steps rest _ _
  have hclose : skipSpaces (blanks ++ ']' :: rest) = ']' :: rest := skipSpaces_append h _
  rw [List.append_assoc, List.singleton_append]
  simp [value, skipSpaces_of_not_space, isSpace, hclose]

theorem Reads.emptyObject {blanks : List Char} (h : Blanks blanks) :
    Reads ('\x7b' :: (blanks ++ ['\x7d'])) (.object []) := by
  apply Reads.of_start
  intro steps rest _ _
  have hclose : skipSpaces (blanks ++ '\x7d' :: rest) = '\x7d' :: rest := skipSpaces_append h _
  rw [List.append_assoc, List.singleton_append]
  simp [value, skipSpaces_of_not_space, isSpace, hclose]

/-- a value in front of a mark is read up to the mark, blanks apart -/
theorem Reads.before_mark {text : List Char} {j : Json} (h : Reads text j) (steps : Nat) (hsteps : 2 * text.length ≤ steps)
    {c : Char} (hc : c ∈ [',', ']', '\x7d']) (rest : List Char) :
    ∃ rest', value steps (text ++ c :: rest) = some (j, rest') ∧ skipSpaces rest' = c :: rest := by
  have hmark : EndsNumber (c :: rest) ∧ isSpace c = false := by
    simp only [List.mem_cons, List.not_mem_nil, or_false] at hc
    rcases hc with rfl | rfl | rfl <;> simp [EndsNumber, isSpace]
  obtain ⟨rest', hread, hleft⟩ := h steps (c :: rest) hsteps hmark.1
  exact ⟨rest', hread, hleft.trans (skipSpaces_of_not_space hmark.2 rest)⟩

theorem items_comma {text : List Char} {j : Json} (h : Reads text j) {steps : Nat} (hsteps : 2 * text.length ≤ steps)
    (rest : List Char) : items (steps + 1) (text ++ ',' :: rest) = (items steps rest).map fun r => (j :: r.1, r.2) := by
  obtain ⟨rest', hread, hleft⟩ := h.before_mark steps hsteps (by decide : ',' ∈ _) rest
  simp [items, hread, hleft]

theorem items_last {text : List Char} {j : Json} (h : Reads text j) {steps : Nat} (hsteps : 2 * text.length ≤ steps)
    (rest : List Char) : items (steps + 1) (text ++ ']' :: rest) = some ([j], rest) := by
  obtain ⟨rest', hread, hleft⟩ := h.before_mark steps hsteps (by decide : ']' ∈ _) rest
  simp [items, hread, hleft]

/-- the items of a list are read up to its closing bracket -/
theorem items_glue {parts : List (List Char × Json)} (hne : parts ≠ []) (h : ∀ p ∈ parts, Reads p.1 p.2) (steps : Nat)
    (hsteps : 2 * (glue [','] (parts.map fun p => p.1)).length < steps) (rest : List Char) :
    items steps (glue [','] (parts.map fun p => p.1) ++ ']' :: rest) = some (parts.map fun p => p.2, rest) := by
  induction parts generalizing steps with
  | nil => exact absurd rfl hne
  | cons p parts ih =>
    obtain ⟨hp, hparts⟩ := List.forall_mem_cons.1 h
    obtain ⟨k, rfl⟩ : ∃ k, steps = k + 1 := Nat.exists_eq_succ_of_ne_zero (Nat.ne_zero_of_lt hsteps)
    cases parts with
    | nil =>
      simp only [List.map_cons, List.map_nil, glue] at hsteps ⊢
      exact items_last hp (by omega) rest
    | cons q parts =>
      simp only [List.map_cons, glue, List.append_assoc, List.cons_append, List.nil_append, List.length_append,
        List.length_cons] at ih hsteps ⊢
      rw [items_comma hp (by omega), ih (List.cons_ne_nil q parts) hparts k (by omega), Option.map_some]

theorem Reads.list {parts : List (List Char × Json)} (hne : parts ≠ []) (h : ∀ p ∈ parts, Reads p.1 p.2) :
    Reads ('[' :: (glue [','] (parts.map fun p => p.1) ++ [']'])) (.list (parts.map fun p => p.2)) := by
  apply Reads.of_start
  intro steps rest hsteps _
  rw [List.length_append] at hsteps
  rw [List.append_assoc, List.singleton_append]
  exact value_list (items_glue hne h steps (by omega) rest)

/-- behind its name and a colon, a member is read as its value is -/
theorem members_name {nameText cs : List Char} {name : Option String} {j : Json} (hn : IsName nameText name) {steps : Nat}
    {rest : List Char} (hread : value steps cs = some (j, rest)) :
    (∀ more, skipSpaces rest = ',' :: more →
      members (steps + 1) (nameText ++ ':' :: cs) = (members steps more).map fun r => ((name, j) :: r.1, r.2)) ∧
      ∀ more, skipSpaces rest = '\x7d' :: more → members (steps + 1) (nameText ++ ':' :: cs) = some ([(name, j)], more) := by
  obtain ⟨before, body, after, hb, hbody, ha, rfl⟩ := hn
  have hquote : skipSpaces (before ++ '"' :: (body ++ '"' :: after) ++ ':' :: cs) =
      '"' :: (body ++ '"' :: (after ++ ':' :: cs)) := by
    rw [List.append_assoc, skipSpaces_append hb, List.cons_append, skipSpaces_of_not_space rfl, List.append_assoc,
      List.cons_append]
  have hcolon : skipSpaces (after ++ ':' :: cs) = ':' :: cs := by
    rw [skipSpaces_append ha, skipSpaces_of_not_space rfl]
  constructor
  · intro more hmore
    rw [members, hquote]
    simp [stringBody_of_isString hbody, hcolon, hread, hmore]
  · intro more hmore
    rw [members, hquote]
    simp [stringBody_of_isString hbody, hcolon, hread, hmore]

/-- the members of an object are read up to its closing brace -/
theorem members_glue {parts : List ((List Char × Option String) × (List Char × Json))} (hne : parts ≠ [])
    (hn : ∀ p ∈ parts, IsName p.1.1 p.1.2) (h : ∀ p ∈ parts, Reads p.2.1 p.2.2) (steps : Nat)
    (hsteps : 2 * (glue [','] (parts.map fun p => p.1.1 ++ ':' :: p.2.1)).length < steps) (rest : List Char) :
    members steps (glue [','] (parts.map fun p => p.1.1 ++ ':' :: p.2.1) ++ '\x7d' :: rest) =
      some (parts.map fun p => (p.1.2, p.2.2), rest) := by
  induction parts generalizing steps with
  | nil => exact absurd rfl hne
  | cons p parts ih =>
    obtain ⟨hp, hparts⟩ := List.forall_mem_cons.1 h
    obtain ⟨hname, hnames⟩ := List.forall_mem_cons.1 hn
    obtain ⟨k, rfl⟩ : ∃ k, steps = k + 1 := Nat.exists_eq_succ_of_ne_zero (Nat.ne_zero_of_lt hsteps)
    cases parts with
    | nil =>
      simp only [List.map_cons, List.map_nil, glue, List.length_append, List.length_cons] at hsteps ⊢
      obtain ⟨rest', hread, hleft⟩ := hp.before_mark k (by omega) (by decide : '\x7d' ∈ _) rest
      rw [List.append_assoc, List.cons_append]
      exact (members_name hname hread).2 rest hleft
    | cons q parts =>
      simp only [List.map_cons, glue, List.append_assoc, List.cons_append, List.nil_append, List.length_append,
        List.length_cons] at ih hsteps ⊢
      have hmore := ih (List.cons_ne_nil q parts) hnames hparts k (by omega)
      obtain ⟨rest', hread, hleft⟩ := hp.before_mark k (by omega) (by decide : ',' ∈ _) (glue [','] _ ++ '\x7d' :: rest)
      rw [(members_name hname hread).1 _ hleft, hmore, Option.map_some]

theorem Reads.object {parts : List ((List Char × Option String) × (List Char × Json))} (hne : parts ≠ [])
    (hn : ∀ p ∈ parts, IsName p.1.1 p.1.2) (h : ∀ p ∈ parts, Reads p.2.1 p.2.2) :
    Reads ('\x7b' :: (glue [','] (parts.map fun p => p.1.1 ++ ':' :: p.2.1) ++ ['\x7d']))
      (.object (parts.map fun p => (p.1.2, p.2.2))) := by
  apply Reads.of_start
  intro steps rest hsteps _
  rw [List.length_append] at hsteps
  rw [List.append_assoc, List.singleton_append]
  exact value_object (members_glue hne hn h steps (by omega) rest)

/-- what writes a value is read as it -/
theorem reads_of_writes {text : List Char} {j : Json} (h : Writes text j) : Reads text j := by
  induction h with
  | null => exact reads_null
  | true => exact reads_true
  | false => exact reads_false
  | number h => exact .number h
  | string h => exact .string h
  | spaced hb _ ha ih => exact .spaced hb ih ha
  | emptyList h => exact .emptyList h
  | list hne _ ih => exact .list hne ih
  | emptyObject h => exact .emptyObject h
  | object hne hn _ ih => exact .object hne hn ih

/-- **What writes a value is read as it** -/
theorem parse?_of_writes {text : List Char} {j : Json} (h : Writes text j) : parse? text = some j := by
  obtain ⟨rest, hread, hleft⟩ := reads_of_writes h (2 * text.length + 2) [] (by omega) (by simp [EndsNumber])
  rw [List.append_nil] at hread
  have hend : skipSpaces rest = [] := hleft
  rw [parse?, hread]
  exact if_pos hend

/-! ## What is read -/

theorem Writes.blanks_append {blanks text : List Char} {j : Json} (hb : Blanks blanks) (h : Writes text j) :
    Writes (blanks ++ text) j := by
  have hspaced : Writes (blanks ++ (text ++ [])) j := .spaced hb h nofun
  rwa [List.append_nil] at hspaced

theorem Writes.append_blanks {blanks text : List Char} {j : Json} (h : Writes text j) (hb : Blanks blanks) :
    Writes (text ++ blanks) j := by
  have hspaced : Writes ([] ++ (text ++ blanks)) j := .spaced nofun h hb
  exact hspaced

theorem writes_of_word {cs rest : List Char} {j : Json} (h : word cs = some (j, rest)) :
    ∃ text, Writes text j ∧ cs = text ++ rest := by
  obtain ⟨⟨name, value⟩, hmem, hread⟩ := List.exists_of_findSome?_eq_some h
  obtain ⟨_, hdrop, heq⟩ := Option.map_eq_some_iff.1 hread
  cases heq
  refine ⟨name, ?_, (dropStart?_eq_some.1 hdrop).symm⟩
  simp only [List.mem_cons, Prod.mk.injEq, List.not_mem_nil, or_false] at hmem
  rcases hmem with ⟨rfl, rfl⟩ | ⟨rfl, rfl⟩ | ⟨rfl, rfl⟩
  · exact .null
  · exact .true
  · exact .false

/-- the items of a list, with commas between them -/
def WritesItems (text : List Char) (js : List Json) : Prop :=
  ∃ parts : List (List Char × Json), parts ≠ [] ∧ (∀ p ∈ parts, Writes p.1 p.2) ∧
    text = glue [','] (parts.map fun p => p.1) ∧ js = parts.map fun p => p.2

/-- the members of an object, with commas between them -/
def WritesMembers (text : List Char) (ms : List (Option String × Json)) : Prop :=
  ∃ parts : List ((List Char × Option String) × (List Char × Json)), parts ≠ [] ∧
    (∀ p ∈ parts, IsName p.1.1 p.1.2) ∧ (∀ p ∈ parts, Writes p.2.1 p.2.2) ∧
    text = glue [','] (parts.map fun p => p.1.1 ++ ':' :: p.2.1) ∧ ms = parts.map fun p => (p.1.2, p.2.2)

theorem WritesItems.one {text : List Char} {j : Json} (h : Writes text j) : WritesItems text [j] :=
  ⟨[(text, j)], List.cons_ne_nil _ _, List.forall_mem_singleton.2 h, rfl, rfl⟩

theorem WritesItems.cons {text more : List Char} {j : Json} {js : List Json} (h : Writes text j)
    (hmore : WritesItems more js) : WritesItems (text ++ ',' :: more) (j :: js) := by
  obtain ⟨parts, hne, hparts, rfl, rfl⟩ := hmore
  refine ⟨(text, j) :: parts, List.cons_ne_nil _ _, List.forall_mem_cons.2 ⟨h, hparts⟩, ?_, rfl⟩
  obtain ⟨q, parts, rfl⟩ := List.exists_cons_of_ne_nil hne
  simp [glue]

theorem WritesItems.list {text : List Char} {js : List Json} (h : WritesItems text js) :
    Writes ('[' :: (text ++ [']'])) (.list js) := by
  obtain ⟨parts, hne, hparts, rfl, rfl⟩ := h
  exact .list hne hparts

theorem WritesMembers.one {nameText text : List Char} {name : Option String} {j : Json} (hn : IsName nameText name)
    (h : Writes text j) : WritesMembers (nameText ++ ':' :: text) [(name, j)] :=
  ⟨[((nameText, name), (text, j))], List.cons_ne_nil _ _, List.forall_mem_singleton.2 hn, List.forall_mem_singleton.2 h,
    rfl, rfl⟩

theorem WritesMembers.cons {nameText text more : List Char} {name : Option String} {j : Json}
    {ms : List (Option String × Json)} (hn : IsName nameText name) (h : Writes text j) (hmore : WritesMembers more ms) :
    WritesMembers (nameText ++ ':' :: (text ++ ',' :: more)) ((name, j) :: ms) := by
  obtain ⟨parts, hne, hnames, hparts, rfl, rfl⟩ := hmore
  refine ⟨((nameText, name), (text, j)) :: parts, List.cons_ne_nil _ _, List.forall_mem_cons.2 ⟨hn, hnames⟩,
    List.forall_mem_cons.2 ⟨h, hparts⟩, ?_, rfl⟩
  obtain ⟨q, parts, rfl⟩ := List.exists_cons_of_ne_nil hne
  simp [glue]

theorem WritesMembers.object {text : List Char} {ms : List (Option String × Json)} (h : WritesMembers text ms) :
    Writes ('\x7b' :: (text ++ ['\x7d'])) (.object ms) := by
  obtain ⟨parts, hne, hnames, hparts, rfl, rfl⟩ := h
  exact .object hne hnames hparts

/-- what is read in so many steps is what is written -/
structure Sound (steps : Nat) : Prop where
  value {cs rest : List Char} {j : Json} : value steps cs = some (j, rest) → ∃ text, Writes text j ∧ cs = text ++ rest
  items {cs rest : List Char} {js : List Json} :
    items steps cs = some (js, rest) → ∃ text, WritesItems text js ∧ cs = text ++ ']' :: rest
  members {cs rest : List Char} {ms : List (Option String × Json)} :
    members steps cs = some (ms, rest) → ∃ text, WritesMembers text ms ∧ cs = text ++ '\x7d' :: rest

theorem Sound.value_succ {steps : Nat} (h : Sound steps) {cs rest : List Char} {j : Json}
    (hread : Json.value (steps + 1) cs = some (j, rest)) : ∃ text, Writes text j ∧ cs = text ++ rest := by
  obtain ⟨blanks, hb, hcs⟩ := exists_blanks cs
  -- the blanks in front belong to what is written behind them
  suffices hwritten : ∃ text, Writes text j ∧ skipSpaces cs = text ++ rest by
    obtain ⟨text, htext, hskip⟩ := hwritten
    refine ⟨blanks ++ text, .blanks_append hb htext, ?_⟩
    rw [List.append_assoc, ← hskip]
    exact hcs
  rw [Json.value] at hread
  split at hread
  · obtain ⟨⟨text, _⟩, hstring, heq⟩ := Option.map_eq_some_iff.1 hread
    cases heq
    obtain ⟨body, hbody, rfl⟩ := isString_of_stringBody hstring
    rename_i hskip
    exact ⟨_, .string hbody, by simp [hskip]⟩
  · rename_i more hskip
    split at hread
    · rename_i hclose
      cases hread
      obtain ⟨inner, hinner, hmore⟩ := exists_blanks more
      refine ⟨_, .emptyList hinner, ?_⟩
      rw [hskip, hmore, hclose]
      simp
    · rw [items_skipSpaces] at hread
      obtain ⟨⟨js, _⟩, hitems, heq⟩ := Option.map_eq_some_iff.1 hread
      cases heq
      obtain ⟨text, htext, rfl⟩ := h.items hitems
      exact ⟨_, htext.list, by simp [hskip]⟩
  · rename_i more hskip
    split at hread
    · rename_i hclose
      cases hread
      obtain ⟨inner, hinner, hmore⟩ := exists_blanks more
      refine ⟨_, .emptyObject hinner, ?_⟩
      rw [hskip, hmore, hclose]
      simp
    · rw [members_skipSpaces] at hread
      obtain ⟨⟨ms, _⟩, hmembers, heq⟩ := Option.map_eq_some_iff.1 hread
      cases heq
      obtain ⟨text, htext, rfl⟩ := h.members hmembers
      exact ⟨_, htext.object, by simp [hskip]⟩
  · rename_i c more _ _ _ hskip
    rw [hskip]
    split at hread
    · obtain ⟨⟨n, _⟩, hnumber, heq⟩ := Option.map_eq_some_iff.1 hread
      cases heq
      obtain ⟨text, htext, heq⟩ := isNumber_of_numeral hnumber
      exact ⟨text, .number htext, heq⟩
    · exact writes_of_word hread
  · cases hread

theorem Sound.items_succ {steps : Nat} (h : Sound steps) {cs rest : List Char} {js : List Json}
    (hread : Json.items (steps + 1) cs = some (js, rest)) : ∃ text, WritesItems text js ∧ cs = text ++ ']' :: rest := by
  rw [Json.items] at hread
  split at hread
  · cases hread
  · rename_i j more hvalue
    obtain ⟨text, htext, rfl⟩ := h.value hvalue
    obtain ⟨blanks, hb, hmore⟩ := exists_blanks more
    -- the blanks behind an item belong to it
    have hitem : Writes (text ++ blanks) j := .append_blanks htext hb
    split at hread
    · rename_i hcomma
      obtain ⟨⟨js, _⟩, hitems, heq⟩ := Option.map_eq_some_iff.1 hread
      cases heq
      obtain ⟨others, hothers, rfl⟩ := h.items hitems
      refine ⟨_, .cons hitem hothers, ?_⟩
      rw [hmore, hcomma]
      simp
    · rename_i hclose
      cases hread
      refine ⟨_, .one hitem, ?_⟩
      rw [hmore, hclose, List.append_assoc]
    · cases hread

theorem Sound.members_succ {steps : Nat} (h : Sound steps) {cs rest : List Char} {ms : List (Option String × Json)}
    (hread : Json.members (steps + 1) cs = some (ms, rest)) :
    ∃ text, WritesMembers text ms ∧ cs = text ++ '\x7d' :: rest := by
  obtain ⟨before, hbefore, hcs⟩ := exists_blanks cs
  rw [Json.members] at hread
  split at hread
  · rename_i hquote
    split at hread
    · cases hread
    · rename_i name behind hstring
      obtain ⟨body, hbody, rfl⟩ := isString_of_stringBody hstring
      obtain ⟨after, hafter, hbehind⟩ := exists_blanks behind
      have hname : IsName (before ++ '"' :: (body ++ '"' :: after)) name :=
        ⟨before, body, after, hbefore, hbody, hafter, rfl⟩
      split at hread
      · rename_i hcolon
        split at hread
        · cases hread
        · rename_i j more hvalue
          obtain ⟨text, htext, rfl⟩ := h.value hvalue
          obtain ⟨blanks, hb, hmore⟩ := exists_blanks more
          have hmember : Writes (text ++ blanks) j := .append_blanks htext hb
          split at hread
          · rename_i hcomma
            obtain ⟨⟨ms, _⟩, hmembers, heq⟩ := Option.map_eq_some_iff.1 hread
            cases heq
            obtain ⟨others, hothers, rfl⟩ := h.members hmembers
            refine ⟨_, .cons hname hmember hothers, ?_⟩
            rw [hcs, hquote, hbehind, hcolon, hmore, hcomma]
            simp
          · rename_i hclose
            cases hread
            refine ⟨_, .one hname hmember, ?_⟩
            rw [hcs, hquote, hbehind, hcolon, hmore, hclose]
            simp
          · cases hread
      · cases hread
  · cases hread

theorem sound (steps : Nat) : Sound steps := by
  induction steps with
  | zero =>
    refine ⟨fun h => ?_, fun h => ?_, fun h => ?_⟩
    · rw [value] at h
      cases h
    · rw [items] at h
      cases h
    · rw [members] at h
      cases h
  | succ steps ih => exact ⟨ih.value_succ, ih.items_succ, ih.members_succ⟩

/-- **A text is read as a value when it writes it** -/
theorem parse?_eq_some_iff {text : List Char} {j : Json} : parse? text = some j ↔ Writes text j := by
  refine ⟨fun h => ?_, parse?_of_writes⟩
  unfold parse? at h
  split at h
  · rename_i rest hread
    split_ifs at h with hrest
    cases h
    obtain ⟨written, hwritten, rfl⟩ := (sound _).value hread
    obtain ⟨blanks, hb, hblanks⟩ := exists_blanks rest
    rw [hrest, List.append_nil] at hblanks
    rw [hblanks]
    exact hwritten.append_blanks hb
  · cases h

end ImportHarvest.Json

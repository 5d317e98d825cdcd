import ImportHarvest.Proofs.BlankToken
import ImportHarvest.Proofs.WrittenValues
/-!
Texts that variables give to settings.

Three variables give a text to a setting: the one for the token, and those for the output file and the API's address.
Each holds what its text is written as, and settings take no other type in the place of a text. So a text that is the
written form of another value does not get through: settings cannot be loaded, or have another text
(`written_texts_are_lost`).
-/

namespace ImportHarvest.Settings

open Text

/-- a variable that gives a text to a setting -/
inductive TextVariable where
  | token
  | outputPath
  | apiBaseUrl
  deriving DecidableEq, Repr

namespace TextVariable

def name : TextVariable → String
  | token => "GITHUB_TOKEN"
  | outputPath => "PIPMYRIDE_OUTPUT_PATH"
  | apiBaseUrl => "PIPMYRIDE_API_BASE_URL"

/-- the name of the setting -/
def settingName : TextVariable → String
  | token => "token"
  | outputPath => "output_path"
  | apiBaseUrl => "api_base_url"

/-- the text that the setting has -/
def get (c : Config) : TextVariable → Option String
  | token => c.token
  | outputPath => some c.outputPath
  | apiBaseUrl => some c.apiBaseUrl

/-- settings with a text put in; for a token it has to be more than blanks -/
def put (t : String) (c : Config) : TextVariable → Config
  | token => { c with token := realToken (some t) }
  | outputPath => { c with outputPath := t }
  | apiBaseUrl => { c with apiBaseUrl := t }

/-- a variable sets the same setting in the same layer -/
def SetBy (y : String × String) : TextVariable → Prop
  | token => variableKey y.1 = tokenVariable
  | x => ∃ v, variableEntry? y.1 y.2 = some (x.settingName, v)

end TextVariable

/-! ## One entry more in a layer -/

section

variable {above below : Table} {name : String} {w : Value}

theorem last?_insert (x : String) : Table.last? (above ++ (name, w) :: below) x =
    (below.last? x).or (if x = name then some w else above.last? x) := by
  rw [Table.last?, List.reverse_append, List.reverse_cons, List.append_assoc, List.lookup_append, List.singleton_append,
    lookup_cons_eq]
  rfl

theorem last?_insert_self (h : ∀ e ∈ below, e.1 ≠ name) :
    Table.last? (above ++ (name, w) :: below) name = some w := by
  have hnone : below.last? name = none := by
    rw [Table.last?, List.lookup_eq_none_iff]
    intro e he
    exact bne_iff_ne.2 (h e (List.mem_reverse.1 he)).symm
  rw [last?_insert, hnone, if_pos rfl, Option.none_or]

theorem last?_insert_other {x : String} (h : x ≠ name) :
    Table.last? (above ++ (name, w) :: below) x = Table.last? (above ++ below) x := by
  rw [last?_insert, if_neg h, Table.last?, Table.last?, Table.last?, List.reverse_append, List.lookup_append]

end

/-! ## Loading -/

section

variable {d : Disk} {env : Environment} {anchor : String} {explicit : Option String} {file : Table} {c : Config}

/-- when the file has a meaning, what does not load is invalid -/
theorem load_eq_invalid (hfile : fileLayer d anchor explicit = .ok file)
    (h : ∀ c, load d env anchor explicit ≠ .ok c) : load d env anchor explicit = .error .invalid := by
  cases hload : load d env anchor explicit with
  | ok c => exact absurd hload (h c)
  | error cause => rw [invalid_of_load_error hfile hload]

end

section

variable {d : Disk} {before after : Environment} {anchor : String} {explicit : Option String} {v : String} {w : Value}
  {c : Config}

theorem settings_append : Environment.settings (before ++ after) =
    Environment.settings before ++ Environment.settings after := List.filterMap_append ..

/-- a value other than null is a token by its text -/
theorem optionalText?_eq (h : w ≠ .null) : w.optionalText? = w.text?.map some := by
  cases w with
  | null => exact absurd rfl h
  | _ => rfl

theorem load_with_token (hfree : ∀ y ∈ before ++ after, variableKey y.1 ≠ tokenVariable)
    (hw : Value.ofVariable v = w) (hnull : w ≠ .null) (hc : load d (before ++ after) anchor explicit = .ok c) :
    load d (before ++ ("GITHUB_TOKEN", v) :: after) anchor explicit =
      match w.text? with
      | some t => .ok (TextVariable.token.put t c)
      | none => .error .invalid := by
  obtain ⟨file, hfile, hf, he⟩ := plain_of_load hc
  obtain ⟨token, hlayers, -⟩ := (load_free_iff hfile hf he hfree).1 hc
  have he' : (Environment.settings (before ++ ("GITHUB_TOKEN", v) :: after)).Plain := by rwa [settings_token]
  have hread : Setting.token.from? [Environment.token (before ++ ("GITHUB_TOKEN", v) :: after),
      Environment.settings (before ++ ("GITHUB_TOKEN", v) :: after), file] = w.text?.map some := by
    rw [token_of_variable hfree, hw]
    exact optionalText?_eq hnull
  cases ht : w.text? with
  | some t =>
    rw [ht] at hread
    refine (load_eq_ok_iff hfile hf he').2 ⟨some t, ?_, rfl⟩
    rw [settings_token] at hread ⊢
    exact hlayers.withToken hread
  | none =>
    refine load_eq_invalid hfile fun c' hc' => ?_
    obtain ⟨token', hlayers', -⟩ := (load_eq_ok_iff hfile hf he').1 hc'
    rw [hlayers'.token, ht] at hread
    cases hread

end

section

variable {d : Disk} {before after : Environment} {anchor : String} {explicit : Option String} {v : String} {w : Value}
  {c : Config} {x : TextVariable} (hx : x ≠ .token)

include hx

/-- with another text for the setting, only that setting is another -/
theorem FromLayers.put {layers layers' tokens tokens' : List Table} {t : String} (h : FromLayers layers tokens c)
    (hother : ∀ name ∈ settingNames, name ≠ x.settingName → topmost? layers' name = topmost? layers name)
    (htokens : topmost? tokens' "token" = topmost? tokens "token") (hw : topmost? layers' x.settingName = some w)
    (ht : w.text? = some t) : FromLayers layers' tokens' (x.put t c) := by
  have hsame : ∀ {α : Type} (s : Setting α), s.name ∈ settingNames → s.name ≠ x.settingName →
      s.from? layers' = s.from? layers := fun s hs hne => s.from?_congr (hother s.name hs hne)
  have htoken := (Setting.token.from?_congr htokens).trans h.token
  cases x with
  | token => exact absurd rfl hx
  | outputPath =>
    have hset : Setting.outputPath.from? layers' = some t := (Setting.outputPath.from?_of_topmost hw).trans ht
    exact ⟨hset, (hsame _ (by decide) (by decide)).trans h.allowedExtensions,
      (hsame _ (by decide) (by decide)).trans h.excludeGlobs, (hsame _ (by decide) (by decide)).trans h.followSymlinks,
      (hsame _ (by decide) (by decide)).trans h.apiBaseUrl, (hsame _ (by decide) (by decide)).trans h.requestTimeoutSecs,
      (hsame _ (by decide) (by decide)).trans h.copyToClipboard, htoken⟩
  | apiBaseUrl =>
    have hset : Setting.apiBaseUrl.from? layers' = some t := (Setting.apiBaseUrl.from?_of_topmost hw).trans ht
    exact ⟨(hsame _ (by decide) (by decide)).trans h.outputPath,
      (hsame _ (by decide) (by decide)).trans h.allowedExtensions, (hsame _ (by decide) (by decide)).trans h.excludeGlobs,
      (hsame _ (by decide) (by decide)).trans h.followSymlinks, hset,
      (hsame _ (by decide) (by decide)).trans h.requestTimeoutSecs,
      (hsame _ (by decide) (by decide)).trans h.copyToClipboard, htoken⟩

/-- layers that give the setting a value without a text come to nothing -/
theorem FromLayers.text_ne_none {layers tokens : List Table} (h : FromLayers layers tokens c)
    (hw : topmost? layers x.settingName = some w) : w.text? ≠ none := by
  cases x with
  | token => exact absurd rfl hx
  | outputPath =>
    have hread : w.text? = some c.outputPath := (Setting.outputPath.from?_of_topmost hw).symm.trans h.outputPath
    simp [hread]
  | apiBaseUrl =>
    have hread : w.text? = some c.apiBaseUrl := (Setting.apiBaseUrl.from?_of_topmost hw).symm.trans h.apiBaseUrl
    simp [hread]

theorem settings_with_variable : Environment.settings (before ++ (x.name, v) :: after) =
    Environment.settings before ++ (x.settingName, Value.ofVariable v) :: Environment.settings after := by
  have hentry : variableEntry? x.name v = some (x.settingName, Value.ofVariable v) := by
    cases x with
    | token => exact absurd rfl hx
    | outputPath => rfl
    | apiBaseUrl => rfl
  simp only [Environment.settings, List.filterMap_append, List.filterMap_cons, hentry]

theorem token_with_variable :
    Environment.token (before ++ (x.name, v) :: after) = Environment.token (before ++ after) := by
  have hname : variableKey x.name ≠ tokenVariable := by
    cases x with
    | token => exact absurd rfl hx
    | outputPath => decide
    | apiBaseUrl => decide
  simp only [Environment.token, List.filterMap_append, List.filterMap_cons, if_neg hname]

theorem setBy_iff {y : String × String} :
    x.SetBy y ↔ ∃ v, variableEntry? y.1 y.2 = some (x.settingName, v) := by
  cases x with
  | token => exact absurd rfl hx
  | outputPath => exact Iff.rfl
  | apiBaseUrl => exact Iff.rfl

/-- the variable gives the setting by its own name -/
theorem plain_with_variable (h : (Environment.settings (before ++ after)).Plain) :
    (Environment.settings (before ++ (x.name, v) :: after)).Plain := by
  have hown : x.settingName ∉ otherNames.map Prod.snd := by cases x <;> decide
  rw [settings_append] at h
  rw [settings_with_variable hx]
  intro e hmem
  rcases List.mem_append.1 hmem with hmem | hmem
  · exact h e (List.mem_append_left _ hmem)
  · rcases List.mem_cons.1 hmem with rfl | hmem
    · exact hown
    · exact h e (List.mem_append_right _ hmem)

/-- the variable leaves every other setting to the other variables -/
theorem last?_with_other {name : String} (h : name ≠ x.settingName) :
    (Environment.settings (before ++ (x.name, v) :: after)).last? name =
      (Environment.settings (before ++ after)).last? name := by
  rw [settings_with_variable hx, settings_append, last?_insert_other h]

/-- when no other variable gives the setting, it has what the variable holds -/
theorem last?_with_variable (hfree : ∀ y ∈ before ++ after, ¬ x.SetBy y) :
    (Environment.settings (before ++ (x.name, v) :: after)).last? x.settingName = some (Value.ofVariable v) := by
  rw [settings_with_variable hx]
  refine last?_insert_self fun e hmem hname => ?_
  obtain ⟨y, hy, hentry⟩ := List.mem_filterMap.1 hmem
  have he : e = (x.settingName, e.2) := Prod.ext hname rfl
  exact hfree y (List.mem_append_right _ hy) ((setBy_iff hx).2 ⟨e.2, hentry.trans (congrArg some he)⟩)

theorem settingName_ne_token : "token" ≠ x.settingName := by
  cases x with
  | token => exact absurd rfl hx
  | outputPath => decide
  | apiBaseUrl => decide

/-- a text for another setting leaves the token as it is -/
theorem put_withToken (t : String) (c : Config) (token : Option String) :
    { x.put t c with token := token } = x.put t { c with token := token } ∧ (x.put t c).token = c.token := by
  cases x with
  | token => exact absurd rfl hx
  | outputPath => exact ⟨rfl, rfl⟩
  | apiBaseUrl => exact ⟨rfl, rfl⟩

theorem load_with_setting (hfree : ∀ y ∈ before ++ after, ¬ x.SetBy y) (hw : Value.ofVariable v = w)
    (hc : load d (before ++ after) anchor explicit = .ok c) :
    load d (before ++ (x.name, v) :: after) anchor explicit =
      match w.text? with
      | some t => .ok (x.put t c)
      | none => .error .invalid := by
  obtain ⟨file, hfile, hf, he⟩ := plain_of_load hc
  obtain ⟨token, hlayers, htoken⟩ := (load_eq_ok_iff hfile hf he).1 hc
  have he' := plain_with_variable (v := v) hx he
  have htop : topmost? [Environment.settings (before ++ (x.name, v) :: after), file] x.settingName = some w := by
    rw [topmost?, List.findSome?_cons, last?_with_variable hx hfree, hw]
  cases ht : w.text? with
  | some t =>
    obtain ⟨hput, hkept⟩ := put_withToken hx t c token
    refine (load_eq_ok_iff hfile hf he').2 ⟨token, ?_, hkept.trans htoken⟩
    rw [hput]
    refine hlayers.put hx (fun name _ hname => ?_) ?_ htop ht
    · simp only [topmost?, List.findSome?_cons, last?_with_other hx hname]
    · simp only [topmost?, List.findSome?_cons, token_with_variable hx, last?_with_other hx (settingName_ne_token hx)]
  | none =>
    refine load_eq_invalid hfile fun c' hc' => ?_
    obtain ⟨token', hlayers', -⟩ := (load_eq_ok_iff hfile hf he').1 hc'
    exact hlayers'.text_ne_none hx htop ht

end

section

variable {d : Disk} {before after : Environment} {anchor : String} {explicit : Option String} {v : String} {w : Value}
  {c : Config} {x : TextVariable}

/-- what a variable holds has a text, which the setting then has, or nothing is loaded -/
theorem load_with_variable (hfree : ∀ y ∈ before ++ after, ¬ x.SetBy y) (hw : Value.ofVariable v = w) (hnull : w ≠ .null)
    (hc : load d (before ++ after) anchor explicit = .ok c) :
    load d (before ++ (x.name, v) :: after) anchor explicit =
      match w.text? with
      | some t => .ok (x.put t c)
      | none => .error .invalid := by
  by_cases hx : x = .token
  · subst hx
    exact load_with_token hfree hw hnull hc
  · exact load_with_setting hx hfree hw hc

theorem ne_null_of_written {cs : List Char} (h : Written cs w) : w ≠ .null := by
  rintro rfl
  cases h

/-- a text without blanks at its ends is a real token -/
theorem realToken_tight (hne : v ≠ "") (ht : Tight v) : realToken (some v) = some v := by
  have hblank : isAllBlank v = false := by
    rw [← Bool.not_eq_true]
    intro hall
    cases hv : v.toList with
    | nil => exact hne (String.toList_eq_nil_iff.1 hv)
    | cons c cs =>
      have hhead := ht.head c (by rw [hv]; rfl)
      rw [List.all_eq_true.1 hall c (by rw [hv]; exact List.mem_cons_self ..)] at hhead
      cases hhead
  rw [realToken, Option.filter_some, hblank]
  rfl

theorem get_put (hne : v ≠ "") (ht : Tight v) : x.get (x.put v c) = some v := by
  cases x with
  | token => exact realToken_tight hne ht
  | outputPath => rfl
  | apiBaseUrl => rfl

end

/-- **A text is lost when it is the written form of another value.** Where settings load without the variable, a text
without blanks at its ends gets through unchanged when it is no written form. When it is one, the setting has the text of
the value that is written, which is another, and nothing is loaded when that value has no text. -/
theorem written_texts_are_lost (x : TextVariable) (d : Disk) (before after : Environment) (anchor : String)
    (explicit : Option String) (v : String) (c : Config) (hne : v ≠ "") (ht : Tight v)
    (hfree : ∀ y ∈ before ++ after, ¬ x.SetBy y) (hc : load d (before ++ after) anchor explicit = .ok c) :
    ((¬ ∃ w, Written v.toList w) →
      load d (before ++ (x.name, v) :: after) anchor explicit = .ok (x.put v c) ∧ x.get (x.put v c) = some v) ∧
    ∀ w, Written v.toList w → w.text? ≠ some v ∧
      load d (before ++ (x.name, v) :: after) anchor explicit =
        match w.text? with
        | some t => .ok (x.put t c)
        | none => .error .invalid := by
  refine ⟨fun hno => ⟨?_, get_put hne ht⟩, fun w hw => ⟨text?_ne_of_written hw, ?_⟩⟩
  · exact load_with_variable hfree ((ofVariable_eq_text_iff ht).2 hno) nofun hc
  · exact load_with_variable hfree (ofVariable_of_written hw) (ne_null_of_written hw) hc

/-! A token of letters, a quoted output file, and a token of digits, which nothing is loaded with. -/

theorem plain_token_gets_through :
    load .empty [("GITHUB_TOKEN", "ghp_test")] "." none = .ok { Config.standard with token := some "ghp_test" } ∧
      load .empty [("PIPMYRIDE_OUTPUT_PATH", "\"a.txt\"")] "." none =
        .ok { Config.standard with outputPath := "a.txt" } := by
  have hload : load .empty [] "." none = .ok Config.standard := rfl
  have hplain : ¬ ∃ w, Written "ghp_test".toList w := (ofVariable_eq_text_iff (by decide)).1 rfl
  have hbody : quotedBody "a.txt\"".toList = some ("a.txt".toList, []) := by decide +kernel
  have hquoted : Written "\"a.txt\"".toList (.text "a.txt") := .quoted hbody
  refine ⟨?_, ?_⟩
  · exact ((written_texts_are_lost .token .empty [] [] "." none "ghp_test" Config.standard (by decide)
      (by decide) (List.forall_mem_nil _) hload).1 hplain).1
  · exact ((written_texts_are_lost .outputPath .empty [] [] "." none "\"a.txt\"" Config.standard (by decide)
      (by decide) (List.forall_mem_nil _) hload).2 _ hquoted).2

/-- a token of digits is no token, though settings load without it -/
theorem digits_are_no_token :
    load .empty [] "." none = .ok Config.standard ∧
      load .empty [("GITHUB_TOKEN", "12345")] "." none = .error .invalid := ⟨rfl, rfl⟩

end ImportHarvest.Settings

import ImportHarvest.Proofs.Layers
import Mathlib.Data.List.TakeWhile
/-!
A variable for the token that holds nothing but blanks.

Such a variable is a layer like any other: it sets the token to an empty text, in the place of what a lower layer sets,
and only then an empty token counts as none. So it is as good as no variable at all when no lower layer gives a token,
and otherwise the token of the lower layers is lost (`blank_token_hides_lower`).
-/

namespace ImportHarvest.Settings

open Text

/-! ## Blank values -/

section

variable {cs : List Char}

theorem ne_of_blank {c x : Char} (h : isBlank c = true) (hx : isBlank x = false) : c ≠ x := by
  rintro rfl
  rw [h] at hx
  cases hx

theorem trim_blank (h : ∀ c ∈ cs, isBlank c = true) : trim cs = [] := by
  rw [trim, List.dropWhile_eq_nil_iff.2 h]
  rfl

/-- blanks are not the start of any other text -/
theorem dropStart?_blank (h : ∀ c ∈ cs, isBlank c = true) {p : Char} (hp : isBlank p = false) (ps : List Char) :
    dropStart? (p :: ps) cs = none := by
  cases cs with
  | nil => rfl
  | cons c cs =>
    have hne : p ≠ c := (ne_of_blank (h c (List.mem_cons_self ..)) hp).symm
    rw [dropStart?, if_neg hne]

theorem not_isEnvMark_of_blank {c : Char} (h : isBlank c = true) : (!isEnvMark c) = true := by
  have hne : ∀ x, isBlank x = false → c ≠ x := fun x hx => ne_of_blank h hx
  simp [isEnvMark, hne ',' (by decide), hne '[' (by decide), hne ']' (by decide), hne '\x7b' (by decide),
    hne '\x7d' (by decide)]

/-- blanks are an empty bare text -/
theorem envScalar_blank (h : ∀ c ∈ cs, isBlank c = true) : envScalar cs = some (.text "", []) := by
  have ht : dropStart? "true".toList cs = none := dropStart?_blank h (by decide) _
  have hf : dropStart? "false".toList cs = none := dropStart?_blank h (by decide) _
  have hmark : ∀ c ∈ cs, (!isEnvMark c) = true := fun c hc => not_isEnvMark_of_blank (h c hc)
  unfold envScalar
  rw [ht, hf]
  dsimp only
  split
  · exact absurd (h _ (List.mem_cons_self ..)) (by decide)
  · exact absurd (h _ (List.mem_cons_self ..)) (by decide)
  · exact absurd (h _ (List.mem_cons_self ..)) (by decide)
  · rw [List.takeWhile_eq_self_iff.2 hmark, List.dropWhile_eq_nil_iff.2 hmark, trim_blank h]
    rfl

/-- a blank value is an empty text -/
theorem ofVariable_blank {v : String} (h : isAllBlank v = true) : Value.ofVariable v = .text "" := by
  have hv : ∀ c ∈ skipEnvSpaces v.toList, isBlank c = true :=
    fun c hc => List.all_eq_true.1 h c ((List.dropWhile_suffix _).subset hc)
  have hvalue : envValue (2 * v.length + 2) v.toList = some (.text "", []) := by
    rw [envValue]
    split
    · rename_i hs
      rw [hs] at hv
      exact absurd (hv _ (List.mem_cons_self ..)) (by decide)
    · rename_i hs
      rw [hs] at hv
      exact absurd (hv _ (List.mem_cons_self ..)) (by decide)
    · rw [envScalar_blank hv]
      rfl
  rw [Value.ofVariable, hvalue]

end

/-! ## Environments -/

section

variable {before after : Environment}

theorem settings_token (v : String) :
    Environment.settings (before ++ ("GITHUB_TOKEN", v) :: after) = Environment.settings (before ++ after) := by
  have hv : variableEntry? "GITHUB_TOKEN" v = none := rfl
  simp only [Environment.settings, List.filterMap_append, List.filterMap_cons, hv]

theorem token_of_free (h : ∀ x ∈ before ++ after, variableKey x.1 ≠ tokenVariable) :
    Environment.token (before ++ after) = [] := by
  rw [Environment.token, List.filterMap_eq_nil_iff]
  exact fun x hx => if_neg (h x hx)

theorem token_of_variable (h : ∀ x ∈ before ++ after, variableKey x.1 ≠ tokenVariable) (v : String) :
    Environment.token (before ++ ("GITHUB_TOKEN", v) :: after) = [("token", Value.ofVariable v)] := by
  have hname : variableKey "GITHUB_TOKEN" = tokenVariable := by decide
  obtain ⟨hb, ha⟩ := List.append_eq_nil_iff.1 ((List.filterMap_append ..).symm.trans (token_of_free h))
  rw [Environment.token, List.filterMap_append, List.filterMap_cons]
  simp only [hname, if_true]
  rw [hb, ha, List.nil_append]

end

/-! ## Loading -/

section

variable {d : Disk} {before after : Environment} {anchor : String} {explicit : Option String} {file : Table}
  {v : String} {c : Config} (hfile : fileLayer d anchor explicit = .ok file) (hf : file.Plain)
  (he : (Environment.settings (before ++ after)).Plain)
  (hfree : ∀ x ∈ before ++ after, variableKey x.1 ≠ tokenVariable)

include hfile hf he hfree

theorem load_free_iff : load d (before ++ after) anchor explicit = .ok c ↔
    ∃ token, FromLayers [Environment.settings (before ++ after), file] [Environment.settings (before ++ after), file]
      { c with token } ∧ c.token = realToken token := by
  have hnil : ∀ layers, Setting.token.from? ([] :: layers) = Setting.token.from? layers := fun _ => rfl
  rw [load_eq_ok_iff hfile hf he, token_of_free hfree]
  refine exists_congr fun token => and_congr_left' ⟨fun h => ?_, fun h => ?_⟩
  · exact h.withToken ((hnil _).symm.trans h.token)
  · exact h.withToken ((hnil _).trans h.token)

theorem load_blank_iff (hv : isAllBlank v = true) :
    load d (before ++ ("GITHUB_TOKEN", v) :: after) anchor explicit = .ok c ↔
      c.token = none ∧ FromLayers [Environment.settings (before ++ after), file]
        [[("token", .text "")], Environment.settings (before ++ after), file] { c with token := some "" } := by
  rw [load_eq_ok_iff hfile hf (by rwa [settings_token]), settings_token, token_of_variable hfree, ofVariable_blank hv]
  constructor
  · rintro ⟨token, h, hc⟩
    obtain rfl : some "" = token := Option.some.inj h.token
    exact ⟨hc, h⟩
  · rintro ⟨hc, h⟩
    exact ⟨some "", h, hc⟩

/-- what is loaded without the variable is loaded with it too, but for the token -/
theorem load_blank_of_free (hv : isAllBlank v = true) (h : load d (before ++ after) anchor explicit = .ok c) :
    load d (before ++ ("GITHUB_TOKEN", v) :: after) anchor explicit = .ok { c with token := none } := by
  obtain ⟨token, hlayers, -⟩ := (load_free_iff hfile hf he hfree).1 h
  exact (load_blank_iff hfile hf he hfree hv).2 ⟨rfl, hlayers.withToken rfl⟩

/-- what is loaded with the variable is loaded without it too, but for the token, when the lower layers have one or
none -/
theorem load_free_of_blank (hv : isAllBlank v = true) {token : Option String}
    (htoken : Setting.token.from? [Environment.settings (before ++ after), file] = some token)
    (h : load d (before ++ ("GITHUB_TOKEN", v) :: after) anchor explicit = .ok c) :
    load d (before ++ after) anchor explicit = .ok { c with token := realToken token } := by
  obtain ⟨-, hlayers⟩ := (load_blank_iff hfile hf he hfree hv).1 h
  exact (load_free_iff hfile hf he hfree).2 ⟨token, hlayers.withToken htoken, rfl⟩

/-- where nothing is loaded with the variable, nothing is without it -/
theorem load_eq_of_error (hv : isAllBlank v = true) {cause : LoadError}
    (h : load d (before ++ ("GITHUB_TOKEN", v) :: after) anchor explicit = .error cause) :
    load d (before ++ after) anchor explicit = .error cause := by
  cases hfree' : load d (before ++ after) anchor explicit with
  | ok c =>
    rw [load_blank_of_free hfile hf he hfree hv hfree'] at h
    cases h
  | error cause' => rw [invalid_of_load_error hfile h, invalid_of_load_error hfile hfree']

/-- the variable makes no difference when nothing is loaded with it, or the lower layers give no token -/
theorem load_blank_eq_iff (hv : isAllBlank v = true) :
    load d (before ++ ("GITHUB_TOKEN", v) :: after) anchor explicit = load d (before ++ after) anchor explicit ↔
      (∃ cause, load d (before ++ ("GITHUB_TOKEN", v) :: after) anchor explicit = .error cause) ∨
        ∃ token, Setting.token.from? [Environment.settings (before ++ after), file] = some token ∧
          realToken token = none := by
  have hnone : ∀ c, load d (before ++ ("GITHUB_TOKEN", v) :: after) anchor explicit = .ok c → c.token = none :=
    fun c hc => ((load_blank_iff hfile hf he hfree hv).1 hc).1
  constructor
  · intro heq
    cases hwith : load d (before ++ ("GITHUB_TOKEN", v) :: after) anchor explicit with
    | error cause => exact .inl ⟨cause, rfl⟩
    | ok c =>
      obtain ⟨token, hlayers, hc⟩ := (load_free_iff hfile hf he hfree).1 (heq.symm.trans hwith)
      exact .inr ⟨token, hlayers.token, hc.symm.trans (hnone c hwith)⟩
  · intro hagree
    cases hwith : load d (before ++ ("GITHUB_TOKEN", v) :: after) anchor explicit with
    | error cause => exact (load_eq_of_error hfile hf he hfree hv hwith).symm
    | ok c =>
      rcases hagree with ⟨cause, herror⟩ | ⟨token, htoken, hreal⟩
      · rw [hwith] at herror
        cases herror
      · rw [load_free_of_blank hfile hf he hfree hv htoken hwith, hreal, ← hnone c hwith]

end

/-- **A blank token hides the tokens of lower layers.** With a variable for the token that is blank there is no token,
and what is loaded is the same as without that variable exactly when nothing can be loaded with it, or the lower layers
give no token but null or a blank one. -/
theorem blank_token_hides_lower (d : Disk) (before after : Environment) (anchor : String) (explicit : Option String)
    (v : String) (hv : isAllBlank v = true) (hfree : ∀ x ∈ before ++ after, variableKey x.1 ≠ tokenVariable) :
    (∀ c, load d (before ++ ("GITHUB_TOKEN", v) :: after) anchor explicit = .ok c → c.token = none) ∧
      (load d (before ++ ("GITHUB_TOKEN", v) :: after) anchor explicit = load d (before ++ after) anchor explicit ↔
        (∃ cause, load d (before ++ ("GITHUB_TOKEN", v) :: after) anchor explicit = .error cause) ∨
          ∃ file token, fileLayer d anchor explicit = .ok file ∧
            Setting.token.from? [Environment.settings (before ++ after), file] = some token ∧
            realToken token = none) := by
  cases hfile : fileLayer d anchor explicit with
  | error cause =>
    have hload : ∀ env, load d env anchor explicit = .error cause := by
      intro env
      rw [load, hfile]
      rfl
    rw [hload, hload]
    refine ⟨?_, fun _ => .inl ⟨cause, rfl⟩, fun _ => rfl⟩
    intro c hc
    cases hc
  | ok file =>
    by_cases hp : file.Plain ∧ (Environment.settings (before ++ after)).Plain
    · obtain ⟨hf, he⟩ := hp
      refine ⟨fun c hc => ((load_blank_iff hfile hf he hfree hv).1 hc).1, ?_⟩
      refine (load_blank_eq_iff hfile hf he hfree hv).trans (or_congr_right ⟨?_, ?_⟩)
      · rintro ⟨token, htoken, hreal⟩
        exact ⟨file, token, rfl, htoken, hreal⟩
      · rintro ⟨file', token, hfile', htoken, hreal⟩
        cases hfile'
        exact ⟨token, htoken, hreal⟩
    · have hp' : ¬ (file.Plain ∧ (Environment.settings (before ++ ("GITHUB_TOKEN", v) :: after)).Plain) := by
        rwa [settings_token]
      rw [load_of_otherName hfile hp, load_of_otherName hfile hp']
      refine ⟨?_, fun _ => .inl ⟨.invalid, rfl⟩, fun _ => rfl⟩
      intro c hc
      cases hc

/-! A variable with blanks only, beside a variable for another setting and over a file with a token. -/

theorem blankToken_alone :
    isAllBlank " \u00A0" = true ∧
      load .empty [("PIPMYRIDE_FOLLOW_SYMLINKS", "true"), ("GITHUB_TOKEN", " \u00A0")] "." none =
        load .empty [("PIPMYRIDE_FOLLOW_SYMLINKS", "true")] "." none := by
  have hv : isAllBlank " \u00A0" = true := by decide
  have hfree : ∀ x ∈ [("PIPMYRIDE_FOLLOW_SYMLINKS", "true")] ++ [], variableKey x.1 ≠ tokenVariable := by decide
  have hfile : fileLayer .empty "." none = .ok [] := rfl
  have htoken : Setting.token.from? [Environment.settings [("PIPMYRIDE_FOLLOW_SYMLINKS", "true")], []] = some none := rfl
  exact ⟨hv, (blank_token_hides_lower .empty [("PIPMYRIDE_FOLLOW_SYMLINKS", "true")] [] "." none " \u00A0" hv hfree).2.2
    (.inr ⟨[], none, hfile, htoken, rfl⟩)⟩

def tokenDisk : Disk := { entries := [("pipmyride.toml", .file (utf8Of "token = \"abc\"\n"))] }

theorem tokenDisk_file : fileLayer tokenDisk "." none = .ok [("token", .text "abc")] := by
  have hread : tokenDisk.read "./pipmyride.toml" = .ok (utf8Of "token = \"abc\"\n") := rfl
  have hparse : Format.toml.parse? "token = \"abc\"\n".toList = some [("token", .text "abc")] := by decide +kernel
  exact fileLayer_usual rfl hread hparse

/-- the token of the file is lost when the variable is empty -/
theorem tokenDisk_token_lost :
    load tokenDisk [] "." none = .ok { Config.standard with token := some "abc" } ∧
      load tokenDisk [("GITHUB_TOKEN", "")] "." none = .ok Config.standard := by
  rw [load_of_file tokenDisk_file, load_of_file tokenDisk_file]
  exact ⟨rfl, rfl⟩

end ImportHarvest.Settings

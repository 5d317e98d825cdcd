import ImportHarvest.Proofs.ListItems
import ImportHarvest.Proofs.Precedence
/-!
The two list settings, given in one way or in another.

A list can be given by an option of the command line, by one text in a document, or as a list there. The option and the
text come to the same, and so do a list of items without commas and the text that they are put together to
(`options_and_documents_agree`). So a setting can be moved from the command line to the file: the command then runs with
the same settings, and takes the same files of every tree.
-/

namespace ImportHarvest

open Text Settings CommandLine

/-! ## The settings of a record -/

/-- a list setting: its place among the fields, the normal form of its items, what an option for it makes of a text, and
the settings with it put in -/
structure ListSetting where
  place : Nat
  normal : List String → List String
  option : String → List String
  put : List String → Config → Config

namespace ListSetting

def extensions : ListSetting :=
  ⟨1, extensionsOf, Arguments.listedExtensions, fun xs c => { c with allowedExtensions := xs }⟩

def globs : ListSetting := ⟨2, globsOf, Arguments.listed, fun xs c => { c with excludeGlobs := xs }⟩

def all : List ListSetting := [extensions, globs]

variable {l : ListSetting}

theorem option_eq (hl : l ∈ all) (s : String) : l.option s = l.normal (itemsOf s) := by
  simp only [all, List.mem_cons, List.not_mem_nil, or_false] at hl
  rcases hl with rfl | rfl
  · exact Arguments.listedExtensions_eq s
  · exact Arguments.listed_eq s

theorem normal_join (hl : l ∈ all) {items : List String} (h : ∀ s ∈ items, ',' ∉ s.toList) :
    l.normal (itemsOf (join "," items)) = l.normal items := by
  simp only [all, List.mem_cons, List.not_mem_nil, or_false] at hl
  rcases hl with rfl | rfl
  · exact extensionsOf_join h
  · exact globsOf_join h

/-- a value for the setting is read by itself: the other fields come to what they come to without it -/
theorem ofValues?_of_place (hl : l ∈ all) {values : List (Option Value)} {v : Value}
    (h : values[l.place]? = some (some v)) : Config.ofValues? values =
      (v.items?.map l.normal).bind fun xs => (Config.ofValues? (values.set l.place none)).map (l.put xs) := by
  by_cases hlen : values.length = 8
  · obtain ⟨output, exts, globs, follow, base, timeout, clipboard, token, rfl⟩ :
        ∃ o e g f b t k z, values = [o, e, g, f, b, t, k, z] := by
      match values, hlen with
      | [o, e, g, f, b, t, k, z], _ => exact ⟨o, e, g, f, b, t, k, z, rfl⟩
    simp only [all, List.mem_cons, List.not_mem_nil, or_false] at hl
    refine Option.ext fun c => ?_
    simp only [Option.bind_eq_some_iff, Option.map_eq_some_iff]
    rcases hl with rfl | rfl
    · obtain rfl : exts = some v := Option.some.inj h
      rw [ofValues?_eq_some_iff]
      constructor
      · intro hc
        obtain ⟨items, hitems, hnormal⟩ := Option.map_eq_some_iff.1 hc.allowedExtensions
        exact ⟨_, ⟨items, hitems, hnormal⟩, { c with allowedExtensions := Config.standard.allowedExtensions },
          ofValues?_eq_some_iff.2 { hc with allowedExtensions := rfl }, rfl⟩
      · rintro ⟨xs, ⟨items, hitems, rfl⟩, c, hc, rfl⟩
        have hread : Setting.allowedExtensions.of? (some v) = some (extensionsOf items) := by
          simp only [Setting.of?, default?, Setting.allowedExtensions, hitems, Option.map_some]
        exact { ofValues?_eq_some_iff.1 hc with allowedExtensions := hread }
    · obtain rfl : globs = some v := Option.some.inj h
      rw [ofValues?_eq_some_iff]
      constructor
      · intro hc
        obtain ⟨items, hitems, hnormal⟩ := Option.map_eq_some_iff.1 hc.excludeGlobs
        exact ⟨_, ⟨items, hitems, hnormal⟩, { c with excludeGlobs := Config.standard.excludeGlobs },
          ofValues?_eq_some_iff.2 { hc with excludeGlobs := rfl }, rfl⟩
      · rintro ⟨xs, ⟨items, hitems, rfl⟩, c, hc, rfl⟩
        have hread : Setting.excludeGlobs.of? (some v) = some (globsOf items) := by
          simp only [Setting.of?, default?, Setting.excludeGlobs, hitems, Option.map_some]
        exact { ofValues?_eq_some_iff.1 hc with excludeGlobs := hread }
  · have hset : (values.set l.place none).length ≠ 8 := by rwa [List.length_set]
    rw [ofValues?_eq_none hlen, ofValues?_eq_none hset]
    simp

/-- a text for the setting is what the option makes of it -/
theorem normal_text (hl : l ∈ all) (s : String) : (Value.text s).items?.map l.normal = some (l.option s) := by
  rw [option_eq hl]
  rfl

/-- items without commas can be given as a list or in one text -/
theorem normal_list (hl : l ∈ all) {items : List String} (h : ∀ s ∈ items, ',' ∉ s.toList) :
    (Value.list (items.map .text)).items?.map l.normal = (Value.text (join "," items)).items?.map l.normal := by
  have hitems : (Value.text (join "," items)).items? = some (itemsOf (join "," items)) := rfl
  rw [items?_list, hitems, Option.map_some, Option.map_some, normal_join hl h]

/-! ## The settings of a document -/

section

variable {name : String} (hl : l ∈ all) (hname : Config.fields.find? name = some l.place)

include hl hname

/-- an entry for the setting beside others that are not for it is read by itself, in whatever way values are read -/
theorem ofPlaces_insert {α : Type} (read : α → Value) {before after : List (String × α)}
    (hfree : ∀ e ∈ before ++ after, Config.fields.find? e.1 ≠ some l.place) (a : α) :
    ((Config.fields.place? (before ++ (name, a) :: after)).bind fun values =>
        Config.ofValues? (values.map (Option.map read))) =
      ((read a).items?.map l.normal).bind fun xs =>
        ((Config.fields.place? (before ++ after)).bind fun values =>
          Config.ofValues? (values.map (Option.map read))).map (l.put xs) := by
  rw [Fields.place?_insert hname hfree]
  cases hplace : Config.fields.place? (before ++ after) with
  | none => simp
  | some values =>
    have hset : values.set l.place none = values := Fields.place?_free hplace hfree
    have hlen : l.place < (values.map (Option.map read)).length := by
      obtain ⟨-, rfl⟩ := Fields.place?_eq_some_iff.1 hplace
      simpa using Fields.find?_lt hname
    have hvalue : ((values.map (Option.map read)).set l.place (some (read a)))[l.place]? = some (some (read a)) :=
      List.getElem?_set_self hlen
    have hother : (values.map (Option.map read)).set l.place none = values.map (Option.map read) := by
      have hmap : (values.set l.place none).map (Option.map read) = (values.map (Option.map read)).set l.place none :=
        List.map_set
      rw [← hmap, hset]
    rw [Option.map_some, Option.bind_some, Option.bind_some, List.map_set, Option.map_some, ofValues?_of_place hl hvalue,
      List.set_set, hother]

theorem ofTable?_insert {before after : Table}
    (hfree : ∀ e ∈ before ++ after, Config.fields.find? e.1 ≠ some l.place) (v : Value) :
    Config.ofTable? (before ++ (name, v) :: after) =
      (v.items?.map l.normal).bind fun xs => (Config.ofTable? (before ++ after)).map (l.put xs) := by
  have hread : ∀ t : Table, Config.ofTable? t =
      (Config.fields.place? t).bind fun values => Config.ofValues? (values.map (Option.map id)) := by
    intro t
    simp only [Option.map_id, List.map_id]
    rfl
  rw [hread, hread, ofPlaces_insert hl hname id hfree]
  rfl

theorem ofJson?_insert {before after : List (Option String × Json)}
    (hfree : ∀ m ∈ before ++ after, m.1.bind Config.fields.find? ≠ some l.place) (j : Json) :
    Config.ofJson? (.object (before ++ (some name, j) :: after)) =
      ((Value.ofJson j).items?.map l.normal).bind fun xs =>
        (Config.ofJson? (.object (before ++ after))).map (l.put xs) := by
  have hrecord : ∀ members, Config.ofJson? (.object members) = (Json.named members).bind fun given =>
      (Config.fields.place? given).bind fun values => Config.ofValues? (values.map (Option.map Value.ofJson)) := by
    intro members
    rw [Config.ofJson?, Json.record?_object, Option.bind_eq_bind, Option.bind_assoc]
  rw [hrecord, hrecord, Json.named_append, Json.named_append, Json.named_cons_some]
  cases hbefore : Json.named before with
  | none => simp
  | some first =>
    cases hafter : Json.named after with
    | none => simp
    | some last =>
      have hgiven : ∀ e ∈ first ++ last, Config.fields.find? e.1 ≠ some l.place := by
        intro e he
        rcases List.mem_append.1 he with he | he
        · exact hfree (some e.1, e.2) (List.mem_append_left _ (Json.mem_of_named hbefore he))
        · exact hfree (some e.1, e.2) (List.mem_append_right _ (Json.mem_of_named hafter he))
      simp only [Option.map_some, Option.bind_some]
      exact ofPlaces_insert hl hname Value.ofJson hgiven j

end

end ListSetting

/-! ## Options moved to the file -/

namespace CommandLine

section

variable {s s' : Session} {a a' : Arguments} {file file' : Table} {c : Config}

/-- some arguments and a file say what other arguments and another file say, but that the file gives the list settings,
as texts, that were given by options -/
structure MovedToFile (a a' : Arguments) (file file' : Table) : Prop where
  extensions : file'.last? "allowed_extensions" =
    ((a.value? .extensions).map .text).or (file.last? "allowed_extensions")
  globs : file'.last? "exclude_globs" = ((a.value? .excludeGlob).map .text).or (file.last? "exclude_globs")
  others : ∀ name ∈ settingNames, name ≠ "allowed_extensions" → name ≠ "exclude_globs" →
    file'.last? name = file.last? name
  noOptions : a'.value? .extensions = none ∧ a'.value? .excludeGlob = none
  sameOutput : a'.value? .output = a.value? .output
  sameSwitches : a'.switches = a.switches

/-- the settings with the lists put in that options give -/
def Arguments.putLists (a : Arguments) (c : Config) : Config :=
  { c with
    allowedExtensions := a.overrides.allowedExtensions.getD c.allowedExtensions
    excludeGlobs := a.overrides.excludeGlobs.getD c.excludeGlobs }

/-- over a file, a list setting that the variables do not give is the file's -/
theorem topmost?_file {env : Table} {name : String} (h : env.last? name = none) (file : Table) :
    topmost? [env, file] name = file.last? name := by
  rw [topmost?, List.findSome?_cons, h, List.findSome?_cons]
  cases file.last? name <;> rfl

/-- a list setting that is moved to the file comes to what the option made of it -/
theorem from?_moved (setting : Setting (List String)) {normal : List String → List String}
    (hread : ∀ v, setting.read v = v.items?.map normal) {env : Table} {given : Option String} {below : List String}
    (hmoved : file'.last? setting.name = (given.map Value.text).or (file.last? setting.name))
    (hfree : given.isSome → env.last? setting.name = none) (hbelow : setting.from? [env, file] = some below) :
    setting.from? [env, file'] = some ((given.map fun v => normal (itemsOf v)).getD below) := by
  cases given with
  | none =>
    have hsame : topmost? [env, file'] setting.name = topmost? [env, file] setting.name := by
      simp only [topmost?, List.findSome?_cons, hmoved, Option.map_none, Option.none_or]
    rw [setting.from?_congr hsame, hbelow]
    rfl
  | some v =>
    have htop : topmost? [env, file'] setting.name = some (.text v) := by
      rw [topmost?_file (hfree rfl), hmoved]
      rfl
    rw [setting.from?_of_topmost htop, hread]
    rfl

/-- layers with the moved settings in the file come to what they came to, with what the options make of these put in -/
theorem fromLayers_moved (hm : MovedToFile a a' file file') {env tokens : Table} {loaded : Config}
    (hextensions : (a.value? .extensions).isSome → env.last? "allowed_extensions" = none)
    (hglobs : (a.value? .excludeGlob).isSome → env.last? "exclude_globs" = none)
    (h : FromLayers [env, file] [tokens, env, file] loaded) :
    FromLayers [env, file'] [tokens, env, file'] (a.putLists loaded) := by
  have hsame : ∀ name ∈ settingNames, name ≠ "allowed_extensions" → name ≠ "exclude_globs" →
      ∀ above, topmost? (above ++ [file']) name = topmost? (above ++ [file]) name := by
    intro name hname he hg above
    rw [topmost?_append, topmost?_append]
    simp only [topmost?, List.findSome?_cons, hm.others name hname he hg]
  have hother : ∀ {α : Type} (setting : Setting α), setting.name ∈ settingNames →
      setting.name ≠ "allowed_extensions" → setting.name ≠ "exclude_globs" →
      ∀ above, setting.from? (above ++ [file']) = setting.from? (above ++ [file]) :=
    fun setting hname he hg above => setting.from?_congr (hsame _ hname he hg above)
  have hread : ∀ v : Value, Setting.allowedExtensions.read v = v.items?.map extensionsOf := fun _ => rfl
  have hread' : ∀ v : Value, Setting.excludeGlobs.read v = v.items?.map globsOf := fun _ => rfl
  constructor
  · exact (hother Setting.outputPath (by decide) (by decide) (by decide) [env]).trans h.outputPath
  · rw [Arguments.putLists, Arguments.overrides_allowedExtensions]
    exact from?_moved Setting.allowedExtensions hread hm.extensions hextensions h.allowedExtensions
  · exact from?_moved Setting.excludeGlobs hread' hm.globs hglobs h.excludeGlobs
  · exact (hother Setting.followSymlinks (by decide) (by decide) (by decide) [env]).trans h.followSymlinks
  · exact (hother Setting.apiBaseUrl (by decide) (by decide) (by decide) [env]).trans h.apiBaseUrl
  · exact (hother Setting.requestTimeoutSecs (by decide) (by decide) (by decide) [env]).trans h.requestTimeoutSecs
  · exact (hother Setting.copyToClipboard (by decide) (by decide) (by decide) [env]).trans h.copyToClipboard
  · exact (hother Setting.token (by decide) (by decide) (by decide) [tokens, env]).trans h.token

/-- the command line overrides the same settings, but for those that are moved -/
theorem override_moved (hm : MovedToFile a a' file file') (loaded : Config) :
    (a.putLists loaded).override a'.overrides = loaded.override a.overrides := by
  obtain ⟨hextensions, hglobs⟩ := hm.noOptions
  simp only [Config.override, Arguments.putLists, Arguments.overrides, hextensions, hglobs, hm.sameOutput,
    hm.sameSwitches, Option.map_none, Option.getD_none]

/-- settings that are moved from options to the file stay what they are -/
theorem config_moved (hm : MovedToFile a a' file file')
    (hfile : fileLayer s.disk "." (a.value? .config) = .ok file)
    (hfile' : fileLayer s'.disk "." (a'.value? .config) = .ok file') (hf' : file'.Plain) (henv : s'.env = s.env)
    (hextensions : (a.value? .extensions).isSome → s.env.settings.last? "allowed_extensions" = none)
    (hglobs : (a.value? .excludeGlob).isSome → s.env.settings.last? "exclude_globs" = none)
    (h : s.config a = .ok c) : s'.config a' = .ok c := by
  obtain ⟨loaded, hloaded, rfl⟩ := config_eq_ok_iff.1 h
  obtain ⟨file₀, hfile₀, hf, he⟩ := plain_of_load hloaded
  obtain rfl : file = file₀ := Except.ok.inj (hfile.symm.trans hfile₀)
  obtain ⟨token, hlayers, htoken⟩ := (load_eq_ok_iff hfile hf he).1 hloaded
  have hmoved : load s'.disk s'.env "." (a'.value? .config) = .ok (a.putLists loaded) := by
    rw [henv]
    exact (load_eq_ok_iff hfile' hf' he).2 ⟨token, fromLayers_moved hm hextensions hglobs hlayers, htoken⟩
  exact config_eq_ok_iff.2 ⟨_, hmoved, override_moved hm loaded⟩

end

/-- **Options and documents agree on lists.** A text for a list setting comes to the same in a table or a JSON object as
in an option, whatever else is given and by whichever of its names the setting goes, and items without commas come to
the same in a list as in one text. So when options for the list settings are moved to the file, as the texts that they
are, the command runs with the same settings, unless a variable that the options overrode gives such a setting too. -/
theorem options_and_documents_agree :
    (∀ l ∈ ListSetting.all, ∀ name, Config.fields.find? name = some l.place →
      (∀ before after : Table, (∀ e ∈ before ++ after, Config.fields.find? e.1 ≠ some l.place) →
        (∀ s, Config.ofTable? (before ++ (name, .text s) :: after) =
          (Config.ofTable? (before ++ after)).map (l.put (l.option s))) ∧
        ∀ items : List String, (∀ s ∈ items, ',' ∉ s.toList) →
          Config.ofTable? (before ++ (name, .list (items.map .text)) :: after) =
            Config.ofTable? (before ++ (name, .text (join "," items)) :: after)) ∧
      ∀ before after : List (Option String × Json),
        (∀ m ∈ before ++ after, m.1.bind Config.fields.find? ≠ some l.place) →
        (∀ s, Config.ofJson? (.object (before ++ (some name, .string (some s)) :: after)) =
          (Config.ofJson? (.object (before ++ after))).map (l.put (l.option s))) ∧
        ∀ items : List String, (∀ s ∈ items, ',' ∉ s.toList) →
          Config.ofJson? (.object (before ++ (some name, .list (items.map Config.textJson)) :: after)) =
            Config.ofJson? (.object (before ++ (some name, .string (some (join "," items))) :: after))) ∧
    ∀ (s s' : Session) (a a' : Arguments) (file file' : Table),
      fileLayer s.disk "." (a.value? .config) = .ok file → fileLayer s'.disk "." (a'.value? .config) = .ok file' →
      file'.Plain → MovedToFile a a' file file' → s'.env = s.env →
      ((a.value? .extensions).isSome → s.env.settings.last? "allowed_extensions" = none) →
      ((a.value? .excludeGlob).isSome → s.env.settings.last? "exclude_globs" = none) →
      ∀ c, s.config a = .ok c → s'.config a' = .ok c := by
  refine ⟨fun l hl name hname => ⟨fun before after hfree => ?_, fun before after hfree => ?_⟩, ?_⟩
  · refine ⟨fun s => ?_, fun items hitems => ?_⟩
    · rw [ListSetting.ofTable?_insert hl hname hfree, ListSetting.normal_text hl, Option.bind_some]
    · rw [ListSetting.ofTable?_insert hl hname hfree, ListSetting.ofTable?_insert hl hname hfree,
        ListSetting.normal_list hl hitems]
  · have htext : ∀ s, Value.ofJson (.string (some s)) = .text s := fun _ => rfl
    refine ⟨fun s => ?_, fun items hitems => ?_⟩
    · rw [ListSetting.ofJson?_insert hl hname hfree, htext, ListSetting.normal_text hl, Option.bind_some]
    · rw [ListSetting.ofJson?_insert hl hname hfree, ListSetting.ofJson?_insert hl hname hfree, htext, ofJson_texts,
        ListSetting.normal_list hl hitems]
  · intro s s' a a' file file' hfile hfile' hf' hm henv hextensions hglobs c h
    exact config_moved hm hfile hfile' hf' henv hextensions hglobs h

/-! A list with repeats by its other name, and options with blanks and empty items beside a file that says the same. -/

def movedArguments : Arguments := ⟨none, [(.extensions, "py, .ipynb,,py"), (.excludeGlob, " venv/**")], [.noClipboard]⟩

def movedText : String := "allowed_extensions = \"py, .ipynb,,py\"\nexclude_globs = \" venv/**\"\n"

def movedFile : Table := [("allowed_extensions", .text "py, .ipynb,,py"), ("exclude_globs", .text " venv/**")]

def movedSession (d : Disk) : Session where
  env := [("PIPMYRIDE_API_BASE_URL", "http://mirror")]
  input := ""
  disk := d
  web := .answering fun _ => .error "no network"
  completions := fun _ => ""
  clipboard := .copied
  elapsed := ""

def movedDisk : Disk := { entries := [("pipmyride.toml", .file (utf8Of movedText))] }

theorem movedDisk_file : fileLayer movedDisk "." none = .ok movedFile := by
  have hread : movedDisk.read "./pipmyride.toml" = .ok (utf8Of movedText) := rfl
  have hparse : Format.toml.parse? movedText.toList = some movedFile := by decide +kernel
  exact fileLayer_usual rfl hread hparse

theorem movedSession_config :
    Config.ofTable? [("extensions", .list [.text "py", .text ".py "]), ("token", .null)] =
      some { Config.standard with allowedExtensions := Arguments.listedExtensions "py,.py " } ∧
    (movedSession .empty).config movedArguments = .ok { Config.standard with
      allowedExtensions := [".py", ".ipynb"], excludeGlobs := ["venv/**"], apiBaseUrl := "http://mirror",
      copyToClipboard := false } ∧
    (movedSession movedDisk).config ⟨none, [], [.noClipboard]⟩ = (movedSession .empty).config movedArguments := by
  have hl : ListSetting.extensions ∈ ListSetting.all := List.mem_cons_self ..
  obtain ⟨htext, hlist⟩ := (options_and_documents_agree.1 ListSetting.extensions hl "extensions" (by decide)).1 []
    [("token", .null)] (by decide)
  have hfile : fileLayer (movedSession .empty).disk "." (movedArguments.value? .config) = .ok [] := rfl
  have hconfig : (movedSession .empty).config movedArguments = .ok { Config.standard with
      allowedExtensions := [".py", ".ipynb"], excludeGlobs := ["venv/**"], apiBaseUrl := "http://mirror",
      copyToClipboard := false } := by
    rw [Session.config, load_of_file hfile]
    rfl
  have hm : MovedToFile movedArguments ⟨none, [], [.noClipboard]⟩ [] movedFile := by
    have hothers : ∀ name ∈ settingNames, name ≠ "allowed_extensions" → name ≠ "exclude_globs" →
        movedFile.last? name = none := by
      intro name _ he hg
      simp only [movedFile, last?_cons, if_neg he, if_neg hg]
      rfl
    exact ⟨rfl, rfl, hothers, ⟨rfl, rfl⟩, rfl, rfl⟩
  refine ⟨(hlist ["py", ".py "] (by decide)).trans (htext "py,.py "), hconfig, ?_⟩
  rw [hconfig]
  exact options_and_documents_agree.2 (movedSession .empty) (movedSession movedDisk) movedArguments
    ⟨none, [], [.noClipboard]⟩ [] movedFile hfile movedDisk_file (by decide) hm rfl (by decide) (by decide) _ hconfig

end CommandLine

end ImportHarvest

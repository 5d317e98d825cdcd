import ImportHarvest.Proofs.Fields
import ImportHarvest.Proofs.Utf8
import ImportHarvest.Settings.Layers
import Mathlib.Data.List.Nodup
/-!
What settings come to over all layers.

Putting a layer in replaces what it sets and nothing else, so a name has the value of the highest layer that sets it
(`lookup_layers`). Where no layer gives a setting by another name than its own, each setting is read from that value by
itself, or is standard when no layer sets it (`ofTable?_layers`). A layer that does give one by another name gives it
twice, since the standard settings come first, and nothing is loaded (`ofTable?_of_otherName`).
-/

namespace ImportHarvest.Settings

/-! ## Tables -/

section

variable {name : String} {v : Value} {t later : Table}

/-- the value that a layer sets a name to, the last one of several -/
def Table.last? (t : Table) (name : String) : Option Value := t.reverse.lookup name

theorem lookup_cons_eq (e : String × Value) (t : Table) (x : String) :
    List.lookup x (e :: t) = if x = e.1 then some e.2 else t.lookup x := by
  obtain ⟨n, v⟩ := e
  by_cases h : x = n
  · rw [List.lookup_cons, if_pos h, h, beq_self_eq_true]
  · rw [List.lookup_cons, if_neg h, beq_false_of_ne h]

theorem last?_cons (e : String × Value) (t : Table) (x : String) :
    Table.last? (e :: t) x = (Table.last? t x).or (if x = e.1 then some e.2 else none) := by
  rw [Table.last?, List.reverse_cons, List.lookup_append, lookup_cons_eq, List.lookup_nil]
  rfl

theorem lookup_put (x : String) : (put name v t).lookup x = if x = name then some v else t.lookup x := by
  induction t with
  | nil => rw [put, lookup_cons_eq]
  | cons e t ih =>
    obtain ⟨other, old⟩ := e
    rw [put]
    by_cases ho : other = name
    · rw [if_pos ho, lookup_cons_eq, lookup_cons_eq, ho]
      by_cases hx : x = name
      · rw [if_pos hx, if_pos hx]
      · rw [if_neg hx, if_neg hx, if_neg hx]
    · rw [if_neg ho, lookup_cons_eq, lookup_cons_eq, ih]
      by_cases hx : x = other
      · have hne : x ≠ name := hx ▸ ho
        rw [if_pos hx, if_pos hx, if_neg hne]
      · rw [if_neg hx, if_neg hx]

theorem names_put : (put name v t).map Prod.fst =
    if name ∈ t.map Prod.fst then t.map Prod.fst else t.map Prod.fst ++ [name] := by
  induction t with
  | nil => rfl
  | cons e t ih =>
    obtain ⟨other, old⟩ := e
    rw [put]
    by_cases ho : other = name
    · rw [if_pos ho, if_pos (by simp [ho])]
      simp [ho]
    · rw [if_neg ho, List.map_cons, ih, List.map_cons]
      by_cases hm : name ∈ t.map Prod.fst
      · rw [if_pos hm, if_pos (List.mem_cons_of_mem _ hm)]
      · rw [if_neg hm, if_neg (by simpa [Ne.symm ho] using hm), List.cons_append]

/-- putting a layer in replaces what it sets -/
theorem lookup_overlay (x : String) : (overlay t later).lookup x = (later.last? x).or (t.lookup x) := by
  induction later generalizing t with
  | nil => rfl
  | cons e later ih =>
    have hstep : overlay t (e :: later) = overlay (put e.1 e.2 t) later := rfl
    rw [hstep, ih, lookup_put, last?_cons, Option.or_assoc]
    split <;> rfl

theorem nodup_overlay (h : (t.map Prod.fst).Nodup) : ((overlay t later).map Prod.fst).Nodup := by
  induction later generalizing t with
  | nil => exact h
  | cons e later ih =>
    refine ih ?_
    rw [names_put]
    split
    · exact h
    · rename_i hm
      refine List.nodup_append.2 ⟨h, List.pairwise_singleton .., fun a ha b hb hab => hm ?_⟩
      rwa [← List.mem_singleton.1 hb, ← hab]

theorem mem_names_overlay {x : String} :
    x ∈ (overlay t later).map Prod.fst ↔ x ∈ t.map Prod.fst ∨ x ∈ later.map Prod.fst := by
  induction later generalizing t with
  | nil => simp [overlay]
  | cons e later ih =>
    have hstep : overlay t (e :: later) = overlay (put e.1 e.2 t) later := rfl
    have hput : x ∈ (put e.1 e.2 t).map Prod.fst ↔ x ∈ t.map Prod.fst ∨ x = e.1 := by
      rw [names_put]
      split
      · rename_i hm
        exact ⟨.inl, fun hx => hx.elim id fun he => he ▸ hm⟩
      · rw [List.mem_append, List.mem_singleton]
    rw [hstep, ih, hput, List.map_cons, List.mem_cons, or_assoc]

end

/-! ## Layers -/

section

variable {layers : List Table} {t : Table}

/-- what the first of the layers that sets a name sets it to -/
def topmost? (layers : List Table) (name : String) : Option Value := layers.findSome? fun layer => layer.last? name

theorem topmost?_append (above below : List Table) (x : String) :
    topmost? (above ++ below) x = (topmost? above x).or (topmost? below x) := List.findSome?_append

/-- **A later layer goes before an earlier one**, for each name by itself -/
theorem lookup_layers (x : String) :
    (layers.foldl overlay t).lookup x = (topmost? layers.reverse x).or (t.lookup x) := by
  induction layers generalizing t with
  | nil => rfl
  | cons layer layers ih =>
    have hone : topmost? [layer] x = layer.last? x := by
      rw [topmost?, List.findSome?_cons]
      cases layer.last? x <;> rfl
    rw [List.foldl_cons, ih, lookup_overlay, ← Option.or_assoc, List.reverse_cons, topmost?_append, hone]

theorem nodup_layers (h : (t.map Prod.fst).Nodup) : ((layers.foldl overlay t).map Prod.fst).Nodup := by
  induction layers generalizing t with
  | nil => exact h
  | cons layer layers ih => exact ih (nodup_overlay h)

theorem mem_names_layers {x : String} :
    x ∈ (layers.foldl overlay t).map Prod.fst ↔ x ∈ t.map Prod.fst ∨ ∃ layer ∈ layers, x ∈ layer.map Prod.fst := by
  induction layers generalizing t with
  | nil => simp
  | cons layer layers ih =>
    rw [List.foldl_cons, ih, mem_names_overlay, or_assoc]
    simp only [List.mem_cons, exists_eq_or_imp]

end

/-! ## Names of settings -/

/-- the names of the settings, in their order -/
def settingNames : List String :=
  ["output_path", "allowed_extensions", "exclude_globs", "follow_symlinks", "api_base_url", "request_timeout_secs",
    "copy_to_clipboard", "token"]

/-- the settings that have another name too -/
def otherNames : List (String × String) :=
  [("output_path", "output"), ("allowed_extensions", "extensions"), ("exclude_globs", "exclude_glob")]

/-- no setting is given by another name than its own -/
def Table.Plain (t : Table) : Prop := ∀ e ∈ t, e.1 ∉ otherNames.map Prod.snd

instance (t : Table) : Decidable t.Plain := inferInstanceAs (Decidable (∀ e ∈ t, e.1 ∉ otherNames.map Prod.snd))

theorem find?_plain {x : String} {i : Nat} (hx : x ∉ otherNames.map Prod.snd) :
    Config.fields.find? x = some i ↔ settingNames[i]? = some x := by
  have hfind : Config.fields.find? x = settingNames.findIdx? (· == x) := by
    have hfields : Config.fields = settingNames.map fun name => name :: (otherNames.lookup name).toList := rfl
    have hnames : ∀ name : String, (name :: (otherNames.lookup name).toList).contains x = (name == x) := by
      intro name
      have hother : (otherNames.lookup name).toList.contains x = false := by
        rw [← Bool.not_eq_true, List.contains_iff_mem, Option.mem_toList]
        intro hm
        obtain ⟨before, after, hl, -⟩ := List.lookup_eq_some_iff.1 hm
        exact hx (by rw [hl]; simp)
      rw [List.contains_cons, hother, Bool.or_false, BEq.comm]
    rw [Fields.find?, hfields, List.findIdx?_map]
    exact congrArg (settingNames.findIdx? ·) (funext hnames)
  have hd : settingNames.Nodup := by decide
  rw [hfind, List.findIdx?_eq_some_iff_getElem]
  constructor
  · rintro ⟨hi, hname, -⟩
    rw [List.getElem?_eq_getElem hi, eq_of_beq hname]
  · intro h
    obtain ⟨hi, hname⟩ := List.getElem?_eq_some_iff.1 h
    refine ⟨hi, by rw [hname, beq_self_eq_true], fun j hj he => ?_⟩
    have hji : j = i := (List.Nodup.getElem_inj_iff hd).1 ((eq_of_beq he).trans hname.symm)
    omega

/-- a plain table gives each setting by its name -/
theorem first?_plain {t : Table} (hp : t.Plain) {i : Nat} (hi : i < settingNames.length) :
    Config.fields.first? t i = t.lookup settingNames[i] := by
  induction t with
  | nil => rfl
  | cons e t ih =>
    have he : Config.fields.find? e.1 = some i ↔ settingNames[i] = e.1 := by
      rw [find?_plain (hp e (List.mem_cons_self ..)), List.getElem?_eq_getElem hi, Option.some.injEq]
    rw [Fields.first?_cons, lookup_cons_eq, ih fun e he => hp e (List.mem_cons_of_mem _ he)]
    simp only [he]

/-- a plain table without repeats gives each setting by its name -/
theorem place?_plain {t : Table} (hd : (t.map Prod.fst).Nodup) (hp : t.Plain) :
    Config.fields.place? t = some (settingNames.map fun name => t.lookup name) := by
  have hlen : settingNames.length = Config.fields.length := rfl
  refine Fields.place?_eq_some_iff.2 ⟨?_, ?_⟩
  · refine List.pairwise_filterMap.2 ((List.pairwise_map.1 hd).imp_of_mem ?_)
    rintro a b ha hb hab i hi j hj rfl
    rw [find?_plain (hp a ha)] at hi
    rw [find?_plain (hp b hb), hi] at hj
    exact hab (Option.some.inj hj)
  · refine List.ext_getElem (by simp [hlen]) fun i hi _ => ?_
    have hi : i < settingNames.length := by simpa using hi
    rw [List.getElem_map, List.getElem_map, List.getElem_range, first?_plain hp hi]

/-! ## Settings -/

/-- a setting: its name, what it is when nothing sets it, and what it takes -/
structure Setting (α : Type) where
  name : String
  standard : α
  read : Value → Option α

namespace Setting

variable {α : Type}

def outputPath : Setting String := ⟨"output_path", Config.standard.outputPath, Value.text?⟩

def allowedExtensions : Setting (List String) :=
  ⟨"allowed_extensions", Config.standard.allowedExtensions, fun v => v.items?.map extensionsOf⟩

def excludeGlobs : Setting (List String) :=
  ⟨"exclude_globs", Config.standard.excludeGlobs, fun v => v.items?.map globsOf⟩

def followSymlinks : Setting Bool := ⟨"follow_symlinks", Config.standard.followSymlinks, Value.truth?⟩

def apiBaseUrl : Setting String := ⟨"api_base_url", Config.standard.apiBaseUrl, Value.text?⟩

def requestTimeoutSecs : Setting UInt64 :=
  ⟨"request_timeout_secs", Config.standard.requestTimeoutSecs, Value.word?⟩

def copyToClipboard : Setting Bool := ⟨"copy_to_clipboard", Config.standard.copyToClipboard, Value.truth?⟩

def token : Setting (Option String) := ⟨"token", Config.standard.token, Value.optionalText?⟩

/-- the setting by the first of the layers that sets it, nothing when it does not take that value; standard when none
sets it -/
def from? (s : Setting α) (layers : List Table) : Option α :=
  match topmost? layers s.name with
  | none => some s.standard
  | some v => s.read v

/-- the first of the layers that sets the setting sets it to a value that it does not take -/
def IllTyped (s : Setting α) (layers : List Table) : Prop := ∃ v, topmost? layers s.name = some v ∧ s.read v = none

/-- a setting goes by what the layers set under its name -/
theorem from?_congr (s : Setting α) {layers layers' : List Table}
    (h : topmost? layers' s.name = topmost? layers s.name) : s.from? layers' = s.from? layers := by
  rw [from?, from?, h]

theorem from?_of_topmost (s : Setting α) {layers : List Table} {v : Value} (h : topmost? layers s.name = some v) :
    s.from? layers = s.read v := by
  rw [from?, h]

theorem from?_eq_none_iff (s : Setting α) {layers : List Table} : s.from? layers = none ↔ s.IllTyped layers := by
  unfold from? IllTyped
  cases topmost? layers s.name with
  | none => exact ⟨nofun, fun ⟨_, h, _⟩ => by cases h⟩
  | some v => exact ⟨fun h => ⟨v, rfl, h⟩, fun ⟨_, h, hr⟩ => Option.some.inj h ▸ hr⟩

end Setting

/-- what the setting comes to when its field is given so, or not given -/
def Setting.of? {α : Type} (s : Setting α) (given : Option Value) : Option α := default? s.standard s.read given

/-- each setting by itself is what its field comes to -/
structure FromValues (output extensions globs follow base timeout clipboard token : Option Value) (c : Config) :
    Prop where
  outputPath : Setting.outputPath.of? output = some c.outputPath
  allowedExtensions : Setting.allowedExtensions.of? extensions = some c.allowedExtensions
  excludeGlobs : Setting.excludeGlobs.of? globs = some c.excludeGlobs
  followSymlinks : Setting.followSymlinks.of? follow = some c.followSymlinks
  apiBaseUrl : Setting.apiBaseUrl.of? base = some c.apiBaseUrl
  requestTimeoutSecs : Setting.requestTimeoutSecs.of? timeout = some c.requestTimeoutSecs
  copyToClipboard : Setting.copyToClipboard.of? clipboard = some c.copyToClipboard
  token : Setting.token.of? token = some c.token

/-- **Settings are read field by field** -/
theorem ofValues?_eq_some_iff {output extensions globs follow base timeout clipboard token : Option Value} {c : Config} :
    Config.ofValues? [output, extensions, globs, follow, base, timeout, clipboard, token] = some c ↔
      FromValues output extensions globs follow base timeout clipboard token c := by
  simp only [Config.ofValues?, Option.bind_eq_bind, Option.bind_eq_some_iff]
  constructor
  · rintro ⟨o, ho, e, he, g, hg, f, hf, b, hb, t, ht, k, hk, z, hz, h⟩
    cases h
    exact ⟨ho, he, hg, hf, hb, ht, hk, hz⟩
  · rintro ⟨ho, he, hg, hf, hb, ht, hk, hz⟩
    exact ⟨_, ho, _, he, _, hg, _, hf, _, hb, _, ht, _, hk, _, hz, rfl⟩

/-- a record has a value or none for each of eight fields -/
theorem ofValues?_eq_none {values : List (Option Value)} (h : values.length ≠ 8) : Config.ofValues? values = none := by
  unfold Config.ofValues?
  split
  · exact absurd rfl h
  · rfl

/-- each setting by itself is what the layers, the highest first, come to; the token may have layers of its own -/
structure FromLayers (layers tokenLayers : List Table) (c : Config) : Prop where
  outputPath : Setting.outputPath.from? layers = some c.outputPath
  allowedExtensions : Setting.allowedExtensions.from? layers = some c.allowedExtensions
  excludeGlobs : Setting.excludeGlobs.from? layers = some c.excludeGlobs
  followSymlinks : Setting.followSymlinks.from? layers = some c.followSymlinks
  apiBaseUrl : Setting.apiBaseUrl.from? layers = some c.apiBaseUrl
  requestTimeoutSecs : Setting.requestTimeoutSecs.from? layers = some c.requestTimeoutSecs
  copyToClipboard : Setting.copyToClipboard.from? layers = some c.copyToClipboard
  token : Setting.token.from? tokenLayers = some c.token

section

variable {layer : Table} {layers tokenLayers : List Table} {c : Config}

/-- with other layers for the token, only the token is another -/
theorem FromLayers.withToken (h : FromLayers layers tokenLayers c) {tokenLayers' : List Table} {token : Option String}
    (ht : Setting.token.from? tokenLayers' = some token) : FromLayers layers tokenLayers' { c with token } :=
  ⟨h.outputPath, h.allowedExtensions, h.excludeGlobs, h.followSymlinks, h.apiBaseUrl, h.requestTimeoutSecs,
    h.copyToClipboard, ht⟩

/-- settings go by what the layers set under their names, and by nothing else in the layers -/
theorem FromLayers.congr {layers' tokenLayers' : List Table}
    (hl : ∀ name ∈ settingNames, name ≠ "token" → topmost? layers name = topmost? layers' name)
    (ht : topmost? tokenLayers "token" = topmost? tokenLayers' "token") (h : FromLayers layers tokenLayers c) :
    FromLayers layers' tokenLayers' c := by
  have hother : ∀ {α : Type} (s : Setting α), s.name ∈ settingNames → s.name ≠ "token" →
      s.from? layers' = s.from? layers :=
    fun s hs hne => s.from?_congr (hl s.name hs hne).symm
  constructor
  · exact (hother _ (by decide) (by decide)).trans h.outputPath
  · exact (hother _ (by decide) (by decide)).trans h.allowedExtensions
  · exact (hother _ (by decide) (by decide)).trans h.excludeGlobs
  · exact (hother _ (by decide) (by decide)).trans h.followSymlinks
  · exact (hother _ (by decide) (by decide)).trans h.apiBaseUrl
  · exact (hother _ (by decide) (by decide)).trans h.requestTimeoutSecs
  · exact (hother _ (by decide) (by decide)).trans h.copyToClipboard
  · exact (Setting.token.from?_congr ht.symm).trans h.token

/-- a layer that sets nothing but the token -/
def Table.TokenOnly (t : Table) : Prop := ∀ e ∈ t, e.1 = "token"

theorem topmost?_tokenOnly (h : layer.TokenOnly) {name : String} (hne : name ≠ "token") :
    topmost? (layer :: layers) name = topmost? layers name := by
  have hnone : layer.last? name = none := by
    rw [Table.last?, List.lookup_eq_none_iff]
    intro e he
    rw [h e (List.mem_reverse.1 he)]
    exact bne_iff_ne.2 hne
  rw [topmost?, topmost?, List.findSome?_cons, hnone]

theorem fromLayers_tokenOnly_iff (h : layer.TokenOnly) :
    FromLayers (layer :: layers) tokenLayers c ↔ FromLayers layers tokenLayers c := by
  constructor
  · intro hc
    exact hc.congr (fun name _ hne => topmost?_tokenOnly h hne) rfl
  · intro hc
    exact hc.congr (fun name _ hne => (topmost?_tokenOnly h hne).symm) rfl

/-- layers come to nothing when they give some setting a value that it does not take -/
theorem not_fromLayers_iff : (¬ ∃ c, FromLayers layers tokenLayers c) ↔
    Setting.outputPath.IllTyped layers ∨ Setting.allowedExtensions.IllTyped layers ∨
      Setting.excludeGlobs.IllTyped layers ∨ Setting.followSymlinks.IllTyped layers ∨
      Setting.apiBaseUrl.IllTyped layers ∨ Setting.requestTimeoutSecs.IllTyped layers ∨
      Setting.copyToClipboard.IllTyped layers ∨ Setting.token.IllTyped tokenLayers := by
  simp only [← Setting.from?_eq_none_iff]
  constructor
  · intro hnone
    by_contra hall
    simp only [not_or, ← ne_eq, Option.ne_none_iff_exists'] at hall
    obtain ⟨⟨o, ho⟩, ⟨e, he⟩, ⟨g, hg⟩, ⟨f, hf⟩, ⟨b, hb⟩, ⟨t, ht⟩, ⟨c, hc⟩, k, hk⟩ := hall
    exact hnone ⟨⟨o, e, g, f, b, t, c, k⟩, ho, he, hg, hf, hb, ht, hc, hk⟩
  · rintro hnone ⟨c, ho, he, hg, hf, hb, ht, hc, hk⟩
    simp [ho, he, hg, hf, hb, ht, hc, hk] at hnone

end

section

variable {layers : List Table}

theorem plain_standard : Config.standard.toTable.Plain := by decide

theorem plain_layers {t : Table} (ht : t.Plain) (hp : ∀ layer ∈ layers, layer.Plain) :
    Table.Plain (layers.foldl overlay t) := by
  intro e he
  rcases mem_names_layers.1 (List.mem_map_of_mem he) with h | ⟨layer, hl, h⟩
  · obtain ⟨e', he', heq⟩ := List.mem_map.1 h
    exact heq ▸ ht e' he'
  · obtain ⟨e', he', heq⟩ := List.mem_map.1 h
    exact heq ▸ hp layer hl e' he'

theorem nodup_standard_layers : ((layers.foldl overlay Config.standard.toTable).map Prod.fst).Nodup :=
  nodup_layers (by decide)

/-- over the standard settings, a setting that no layer sets is standard -/
theorem Setting.of?_lookup {α : Type} (s : Setting α)
    (h : s.of? (Config.standard.toTable.lookup s.name) = some s.standard) :
    s.of? ((layers.foldl overlay Config.standard.toTable).lookup s.name) = s.from? layers.reverse := by
  rw [lookup_layers, from?]
  cases topmost? layers.reverse s.name with
  | none => exact h
  | some _ => rfl

/-- **Each setting comes from the highest layer that sets it**, by itself, where every layer gives settings by their own
names -/
theorem ofTable?_layers (hp : ∀ layer ∈ layers, layer.Plain) {c : Config} :
    Config.ofTable? (layers.foldl overlay Config.standard.toTable) = some c ↔
      FromLayers layers.reverse layers.reverse c := by
  -- no field is given twice, so each is read from the value that its own name has over all layers
  rw [Config.ofTable?, place?_plain nodup_standard_layers (plain_layers plain_standard hp)]
  refine ofValues?_eq_some_iff.trans ⟨fun h => ?_, fun h => ?_⟩
  · exact ⟨(Setting.of?_lookup _ rfl).symm.trans h.outputPath, (Setting.of?_lookup _ rfl).symm.trans h.allowedExtensions,
      (Setting.of?_lookup _ rfl).symm.trans h.excludeGlobs, (Setting.of?_lookup _ rfl).symm.trans h.followSymlinks,
      (Setting.of?_lookup _ rfl).symm.trans h.apiBaseUrl, (Setting.of?_lookup _ rfl).symm.trans h.requestTimeoutSecs,
      (Setting.of?_lookup _ rfl).symm.trans h.copyToClipboard, (Setting.of?_lookup _ rfl).symm.trans h.token⟩
  · exact ⟨(Setting.of?_lookup _ rfl).trans h.outputPath, (Setting.of?_lookup _ rfl).trans h.allowedExtensions,
      (Setting.of?_lookup _ rfl).trans h.excludeGlobs, (Setting.of?_lookup _ rfl).trans h.followSymlinks,
      (Setting.of?_lookup _ rfl).trans h.apiBaseUrl, (Setting.of?_lookup _ rfl).trans h.requestTimeoutSecs,
      (Setting.of?_lookup _ rfl).trans h.copyToClipboard, (Setting.of?_lookup _ rfl).trans h.token⟩

/-- another name of a setting belongs to the field that the standard settings give by its own -/
theorem find?_otherName : ∀ n ∈ otherNames,
    (n.1 ∈ Config.standard.toTable.map Prod.fst ∧ (Config.fields.find? n.1).isSome) ∧ n.1 ≠ n.2 ∧
      Config.fields.find? n.2 = Config.fields.find? n.1 := by
  decide

/-- a layer that gives a setting by another name gives it for the second time -/
theorem ofTable?_of_otherName {layer : Table} (hl : layer ∈ layers) (hp : ¬ layer.Plain) :
    Config.ofTable? (layers.foldl overlay Config.standard.toTable) = none := by
  obtain ⟨e, he, hother⟩ : ∃ e ∈ layer, e.1 ∈ otherNames.map Prod.snd := by
    simpa only [Table.Plain, not_forall, not_not, exists_prop] using hp
  obtain ⟨n, hn, heq⟩ := List.mem_map.1 hother
  obtain ⟨hstandard, hne, hfind⟩ := find?_otherName n hn
  obtain ⟨i, hi⟩ := Option.isSome_iff_exists.1 hstandard.2
  have hown : n.1 ∈ (layers.foldl overlay Config.standard.toTable).map Prod.fst :=
    mem_names_layers.2 (.inl hstandard.1)
  have hagain : e.1 ∈ (layers.foldl overlay Config.standard.toTable).map Prod.fst :=
    mem_names_layers.2 (.inr ⟨layer, hl, List.mem_map_of_mem he⟩)
  -- the standard entry and the entry of the layer have different names, but one field
  obtain ⟨own, hown, hownName⟩ := List.mem_map.1 hown
  obtain ⟨again, hagain, hagainName⟩ := List.mem_map.1 hagain
  have hplace := Fields.place?_eq_none hown hagain
    (fun h => hne (by rw [← hownName, h, hagainName, heq])) (hownName ▸ hi) (by rw [hagainName, ← heq, hfind, hi])
  rw [Config.ofTable?, hplace]
  rfl

end

/-! ## Loading -/

section

variable {d : Disk} {env : Environment} {anchor : String} {explicit : Option String} {file : Table} {c : Config}

/-- a file that holds a text gives what the text says -/
theorem fileLayer_of_text {path text : String} {format : Format}
    (hpath : explicit.getD (joinPath anchor fileName) = path) (hformat : Format.ofPath path = format)
    (hfile : d.isFile path = true) (hread : d.read path = .ok (Text.utf8Of text))
    (hparse : format.parse? text.toList = some file) : fileLayer d anchor explicit = .ok file := by
  have htable : fileTable? d path = some file := by
    rw [fileTable?, hread, hformat]
    change (Text.utf8Exact? (Text.utf8Of text)).bind format.parse? = some file
    rw [Text.utf8Exact?_utf8Of]
    exact hparse
  subst hpath
  cases explicit with
  | none => simp only [fileLayer, Option.getD_none] at *; rw [hfile, if_pos rfl, htable]
  | some path => simp only [fileLayer, Option.getD_some] at *; rw [hfile, if_pos rfl, htable]

/-- the file with the usual name in the working directory gives what its text says -/
theorem fileLayer_usual {text : String} (hfile : d.isFile "./pipmyride.toml" = true)
    (hread : d.read "./pipmyride.toml" = .ok (Text.utf8Of text))
    (hparse : Format.toml.parse? text.toList = some file) : fileLayer d "." none = .ok file := by
  have hpath : joinPath "." fileName = "./pipmyride.toml" := by decide
  have hformat : Format.ofPath "./pipmyride.toml" = .toml := by decide
  exact fileLayer_of_text hpath hformat hfile hread hparse

theorem tokenOnly_token (env : Environment) : env.token.TokenOnly := by
  intro e he
  obtain ⟨⟨name, raw⟩, -, hv⟩ := List.mem_filterMap.1 he
  dsimp only at hv
  split at hv
  · cases hv
    rfl
  · cases hv

theorem Table.TokenOnly.plain {t : Table} (h : t.TokenOnly) : t.Plain := by
  intro e he
  rw [h e he]
  decide

theorem load_of_file (h : fileLayer d anchor explicit = .ok file) : load d env anchor explicit =
    match Config.ofTable? ([file, env.settings, env.token].foldl overlay Config.standard.toTable) with
    | some config => .ok { config with token := realToken config.token }
    | none => .error .invalid := by
  rw [load, h]
  rfl

/-- when the file has a meaning, settings that cannot be loaded are invalid -/
theorem invalid_of_load_error (h : fileLayer d anchor explicit = .ok file) {cause : LoadError}
    (he : load d env anchor explicit = .error cause) : cause = .invalid := by
  rw [load_of_file h] at he
  split at he
  · cases he
  · cases he
    rfl

/-- two files that have a meaning load the same when they load the same where they load something -/
theorem load_eq_of_ok_iff {d' : Disk} {env' : Environment} {anchor' : String} {explicit' : Option String} {file' : Table}
    (h : fileLayer d anchor explicit = .ok file) (h' : fileLayer d' anchor' explicit' = .ok file')
    (hiff : ∀ c, load d env anchor explicit = .ok c ↔ load d' env' anchor' explicit' = .ok c) :
    load d env anchor explicit = load d' env' anchor' explicit' := by
  cases hl : load d env anchor explicit with
  | ok c => exact ((hiff c).1 hl).symm
  | error cause =>
    cases hl' : load d' env' anchor' explicit' with
    | ok c =>
      rw [(hiff c).2 hl'] at hl
      cases hl
    | error cause' => rw [invalid_of_load_error h hl, invalid_of_load_error h' hl']

/-- **What is loaded comes from the highest layers**, but for a blank token, which is none -/
theorem load_eq_ok_iff (h : fileLayer d anchor explicit = .ok file) (hf : file.Plain) (he : env.settings.Plain) :
    load d env anchor explicit = .ok c ↔
      ∃ token, FromLayers [env.settings, file] [env.token, env.settings, file] { c with token } ∧
        c.token = realToken token := by
  have hp : ∀ layer ∈ [file, env.settings, env.token], layer.Plain := by
    simpa using ⟨hf, he, (tokenOnly_token env).plain⟩
  have hiff : ∀ config, Config.ofTable? ([file, env.settings, env.token].foldl overlay Config.standard.toTable) =
      some config ↔ FromLayers [env.settings, file] [env.token, env.settings, file] config :=
    fun _ => (ofTable?_layers hp).trans (fromLayers_tokenOnly_iff (tokenOnly_token env))
  rw [load_of_file h]
  constructor
  · intro hc
    split at hc
    · rename_i config hconfig
      cases hc
      exact ⟨config.token, (hiff config).1 hconfig, rfl⟩
    · cases hc
  · rintro ⟨token, hlayers, htoken⟩
    rw [(hiff _).2 hlayers]
    exact congrArg Except.ok (by rw [← htoken])

/-- nothing is loaded when a layer gives a setting by another name -/
theorem load_of_otherName (h : fileLayer d anchor explicit = .ok file) (hp : ¬ (file.Plain ∧ env.settings.Plain)) :
    load d env anchor explicit = .error .invalid := by
  have hnone : Config.ofTable? ([file, env.settings, env.token].foldl overlay Config.standard.toTable) = none := by
    rcases not_and_or.1 hp with hf | he
    · exact ofTable?_of_otherName (List.mem_cons_self ..) hf
    · exact ofTable?_of_otherName (List.mem_cons_of_mem _ (List.mem_cons_self ..)) he
  rw [load_of_file h, hnone]

/-- what is loaded is loaded from a file that has a meaning, and no layer gives a setting by another name -/
theorem plain_of_load (h : load d env anchor explicit = .ok c) :
    ∃ file, fileLayer d anchor explicit = .ok file ∧ file.Plain ∧ env.settings.Plain := by
  cases hfile : fileLayer d anchor explicit with
  | error cause =>
    rw [load, hfile] at h
    cases h
  | ok file =>
    by_cases hp : file.Plain ∧ env.settings.Plain
    · exact ⟨file, rfl, hp⟩
    · rw [load_of_otherName hfile hp] at h
      cases h

end

end ImportHarvest.Settings

import ImportHarvest.Proofs.Layers
import ImportHarvest.Proofs.ListItems
/-!
Settings in normal form.

However settings come about, from a document, from all layers, or with what a command line gives put in, their lists are
in normal form (`Resolved.normal`). So reading brings nothing else to them: written out and read again, settings are what
they were, but for the token, which is not written (`resolved_round_trip`).
-/

namespace ImportHarvest

open Text Settings CommandLine

/-! ## Settings that come about -/

/-- settings that a document gives, that all layers give, or that a command line makes of such settings -/
inductive Resolved : Config → Prop
  | json {j : Json} {c : Config} (h : Config.ofJson? j = some c) : Resolved c
  | table {t : Table} {c : Config} (h : Config.ofTable? t = some c) : Resolved c
  | loaded {d : Disk} {env : Environment} {anchor : String} {explicit : Option String} {c : Config}
      (h : load d env anchor explicit = .ok c) : Resolved c
  | overridden {c : Config} (a : Arguments) (h : Resolved c) : Resolved (c.override a.overrides)

/-- both lists are in normal form -/
structure NormalLists (c : Config) : Prop where
  extensions : NormalExtensions c.allowedExtensions
  globs : NormalGlobs c.excludeGlobs

section

variable {values : List (Option Value)} {given : Option Value} {c : Config}

theorem normal_allowedExtensions {extensions : List String}
    (h : Setting.allowedExtensions.of? given = some extensions) : NormalExtensions extensions := by
  cases given with
  | none =>
    obtain rfl : [".py"] = extensions := Option.some.inj h
    exact ⟨by decide, by decide, by decide⟩
  | some v =>
    obtain ⟨items, -, rfl⟩ := Option.map_eq_some_iff.1 h
    exact normal_extensionsOf items

theorem normal_excludeGlobs {globs : List String} (h : Setting.excludeGlobs.of? given = some globs) :
    NormalGlobs globs := by
  cases given with
  | none =>
    obtain rfl : [] = globs := Option.some.inj h
    exact ⟨nofun, nofun⟩
  | some v =>
    obtain ⟨items, -, rfl⟩ := Option.map_eq_some_iff.1 h
    exact normal_globsOf items

/-- the values of a record give normal lists -/
theorem normal_ofValues? (h : Config.ofValues? values = some c) : NormalLists c := by
  by_cases hlen : values.length = 8
  · match values, hlen with
    | [output, extensions, globs, follow, base, timeout, clipboard, token], _ =>
      have hfields := ofValues?_eq_some_iff.1 h
      exact ⟨normal_allowedExtensions hfields.allowedExtensions, normal_excludeGlobs hfields.excludeGlobs⟩
  · rw [ofValues?_eq_none hlen] at h
    cases h

theorem normal_ofTable? {t : Table} (h : Config.ofTable? t = some c) : NormalLists c := by
  obtain ⟨values, -, hvalues⟩ := Option.bind_eq_some_iff.1 h
  exact normal_ofValues? hvalues

theorem normal_ofJson? {j : Json} (h : Config.ofJson? j = some c) : NormalLists c := by
  obtain ⟨values, -, hvalues⟩ := Option.bind_eq_some_iff.1 h
  exact normal_ofValues? hvalues

theorem normal_load {d : Disk} {env : Environment} {anchor : String} {explicit : Option String}
    (h : load d env anchor explicit = .ok c) : NormalLists c := by
  cases hfile : fileLayer d anchor explicit with
  | error cause =>
    rw [load, hfile] at h
    cases h
  | ok file =>
    rw [load_of_file hfile] at h
    split at h
    · rename_i config hconfig
      cases h
      obtain ⟨hextensions, hglobs⟩ := normal_ofTable? hconfig
      exact ⟨hextensions, hglobs⟩
    · cases h

/-- a command line gives normal lists, or leaves those that there are -/
theorem normal_override (a : Arguments) (h : NormalLists c) : NormalLists (c.override a.overrides) := by
  constructor
  · rw [Config.override, Arguments.overrides_allowedExtensions]
    cases a.value? .extensions with
    | none => exact h.extensions
    | some v => exact normal_extensionsOf (itemsOf v)
  · rw [Config.override, Arguments.overrides]
    cases a.value? .excludeGlob with
    | none => exact h.globs
    | some v => exact normal_globsOf (itemsOf v)

theorem Resolved.normal (h : Resolved c) : NormalLists c := by
  induction h with
  | json h => exact normal_ofJson? h
  | table h => exact normal_ofTable? h
  | loaded h => exact normal_load h
  | overridden a _ ih => exact normal_override a ih

end

/-! ## Writing and reading again -/

section

variable {c : Config}

/-- the values that settings are written by, none for the token -/
def Config.writtenValues (c : Config) : List (Option Value) :=
  [some (.text c.outputPath), some (.list (c.allowedExtensions.map .text)), some (.list (c.excludeGlobs.map .text)),
    some (.truth c.followSymlinks), some (.text c.apiBaseUrl), some (.whole c.requestTimeoutSecs.toNat),
    some (.truth c.copyToClipboard), none]

/-- normal settings are read from the values that they are written by, but for the token -/
theorem ofValues?_written (h : NormalLists c) : Config.ofValues? c.writtenValues = some { c with token := none } := by
  have hextensions : Setting.allowedExtensions.of? (some (.list (c.allowedExtensions.map .text))) =
      some c.allowedExtensions := by
    simp only [Setting.of?, default?, Setting.allowedExtensions, items?_list, Option.map_some,
      extensionsOf_of_normal h.extensions]
  have hglobs : Setting.excludeGlobs.of? (some (.list (c.excludeGlobs.map .text))) = some c.excludeGlobs := by
    simp only [Setting.of?, default?, Setting.excludeGlobs, items?_list, Option.map_some, globsOf_of_normal h.globs]
  have htimeout : Setting.requestTimeoutSecs.of? (some (.whole c.requestTimeoutSecs.toNat)) =
      some c.requestTimeoutSecs := by
    have hlt : c.requestTimeoutSecs.toNat < UInt64.size := c.requestTimeoutSecs.toNat_lt
    simp [Setting.of?, default?, Setting.requestTimeoutSecs, Value.word?, hlt]
  exact ofValues?_eq_some_iff.2 ⟨rfl, hextensions, hglobs, rfl, rfl, htimeout, rfl, rfl⟩

theorem place?_toTable : Config.fields.place? c.toTable = some c.writtenValues := rfl

theorem ofJson_ofNat (n : Nat) : Value.ofJson (.number (.ofNat n)) = .whole n := by
  simp [Value.ofJson, Json.Number.ofNat, Json.Number.natural?, natOfDigits_digits]

theorem ofJson?_toJson : Config.ofJson? c.toJson = Config.ofValues? c.writtenValues := by
  have hrecord : c.toJson.record? Config.fields =
      some [some (Config.textJson c.outputPath), some (.list (c.allowedExtensions.map Config.textJson)),
        some (.list (c.excludeGlobs.map Config.textJson)), some (.bool c.followSymlinks),
        some (Config.textJson c.apiBaseUrl), some (.number (.ofNat c.requestTimeoutSecs.toNat)),
        some (.bool c.copyToClipboard), none] := rfl
  rw [Config.ofJson?, hrecord]
  simp only [Option.bind_eq_bind, Option.bind_some, List.map_cons, List.map_nil, Option.map_some, Option.map_none,
    ofJson_texts, ofJson_ofNat]
  rfl

end

/-- **Resolved settings are in normal form, and come back when they are written and read.** Their extensions are
distinct, start with a dot and have no blanks at their ends; their globs are not empty and have no blanks at their ends;
and read again from what is written, as a JSON object or as a table, they are what they were but for the token. -/
theorem resolved_round_trip (c : Config) (h : Resolved c) :
    (c.allowedExtensions.Nodup ∧ ∀ e ∈ c.allowedExtensions, e.toList.head? = some '.' ∧ Tight e) ∧
      (∀ g ∈ c.excludeGlobs, g ≠ "" ∧ Tight g) ∧
      Config.ofJson? c.toJson = some { c with token := none } ∧
      Config.ofTable? c.toTable = some { c with token := none } := by
  have hn := h.normal
  refine ⟨⟨hn.extensions.distinct, fun e he => ⟨hn.extensions.dotted e he, hn.extensions.tight e he⟩⟩,
    fun g hg => ⟨hn.globs.nonempty g hg, hn.globs.tight g hg⟩, ?_, ?_⟩
  · rw [ofJson?_toJson, ofValues?_written hn]
  · rw [Config.ofTable?, place?_toTable]
    exact ofValues?_written hn

/-! A table with a token and an extension with a comma in it, below options with blanks and empty items. -/

def normalTable : Table := [("token", .text "abc"), ("extensions", .list [.text "py", .text " a,b ", .text ".py"])]

def normalConfig : Config :=
  { Config.standard with allowedExtensions := [".py", ".a,b"], excludeGlobs := ["venv/**", "x"], token := some "abc" }

theorem normalConfig_round_trip :
    Resolved normalConfig ∧ Config.ofJson? normalConfig.toJson = some { normalConfig with token := none } ∧
      Config.ofTable? normalConfig.toTable = some { normalConfig with token := none } := by
  have htable : Config.ofTable? normalTable = some { normalConfig with excludeGlobs := [] } := rfl
  have hoverride : Config.override { normalConfig with excludeGlobs := [] }
      (Arguments.overrides ⟨none, [(.excludeGlob, " venv/** ,,x,")], []⟩) = normalConfig := rfl
  have h : Resolved normalConfig := hoverride ▸ .overridden _ (.table htable)
  obtain ⟨-, -, hjson, hagain⟩ := resolved_round_trip normalConfig h
  exact ⟨h, hjson, hagain⟩

end ImportHarvest

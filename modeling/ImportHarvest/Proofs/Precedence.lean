import ImportHarvest.CommandLine.Run
import ImportHarvest.Proofs.Layers
import ImportHarvest.Proofs.ListItems
/-!
Where the settings of a run come from.

What the command line gives goes before the variables, these before the file, and the file before what is standard, for
each setting by itself (`settings_of_highest_layer`). A setting fails only by the value that the highest layer below the
command line gives it: a value that is hidden does no harm, and one that is not hidden is fatal even where the command
line overrides the setting. What no setting is named by makes no difference.
-/

namespace ImportHarvest.CommandLine

open Text Settings

section

variable {s s' : Session} {a : Arguments} {file file' : Table} {c : Config}

theorem config_eq_ok_iff : s.config a = .ok c ↔
    ∃ loaded, load s.disk s.env "." (a.value? .config) = .ok loaded ∧ loaded.override a.overrides = c := by
  unfold Session.config
  cases load s.disk s.env "." (a.value? .config) with
  | error cause => simp [Except.map]
  | ok loaded => simp [Except.map]

theorem config_eq_error_iff : (∃ cause, s.config a = .error cause) ↔
    ¬ ∃ loaded, load s.disk s.env "." (a.value? .config) = .ok loaded := by
  unfold Session.config
  cases load s.disk s.env "." (a.value? .config) with
  | error cause => simp [Except.map]
  | ok loaded => simp [Except.map]

/-- something is loaded exactly when the layers come to something -/
theorem exists_load_iff (hfile : fileLayer s.disk "." (a.value? .config) = .ok file) (hf : file.Plain)
    (he : s.env.settings.Plain) : (∃ loaded, load s.disk s.env "." (a.value? .config) = .ok loaded) ↔
      ∃ c, FromLayers [s.env.settings, file] [s.env.token, s.env.settings, file] c := by
  constructor
  · rintro ⟨loaded, h⟩
    obtain ⟨token, hlayers, -⟩ := (load_eq_ok_iff hfile hf he).1 h
    exact ⟨_, hlayers⟩
  · rintro ⟨c, hlayers⟩
    exact ⟨{ c with token := realToken c.token }, (load_eq_ok_iff hfile hf he).2 ⟨c.token, hlayers, rfl⟩⟩

/-- what is loaded goes by what the layers set under the names of settings -/
theorem load_of_agree (hfile : fileLayer s.disk "." (a.value? .config) = .ok file) (hf : file.Plain)
    (he : s.env.settings.Plain) (hfile' : fileLayer s'.disk "." (a.value? .config) = .ok file') (hf' : file'.Plain)
    (he' : s'.env.settings.Plain)
    (hagree : ∀ name ∈ settingNames, file'.last? name = file.last? name ∧
      s'.env.settings.last? name = s.env.settings.last? name ∧ s'.env.token.last? name = s.env.token.last? name)
    (h : load s.disk s.env "." (a.value? .config) = .ok c) : load s'.disk s'.env "." (a.value? .config) = .ok c := by
  obtain ⟨token, hlayers, hc⟩ := (load_eq_ok_iff hfile hf he).1 h
  refine (load_eq_ok_iff hfile' hf' he').2 ⟨token, hlayers.congr (fun name hname _ => ?_) ?_, hc⟩
  · obtain ⟨hfiles, henvs, -⟩ := hagree name hname
    simp only [topmost?, List.findSome?_cons, hfiles, henvs]
  · obtain ⟨hfiles, henvs, htokens⟩ := hagree "token" (by decide)
    simp only [topmost?, List.findSome?_cons, hfiles, henvs, htokens]

end

/-- **Settings come from the highest layer that sets them.** They cannot be had exactly when the highest layer below the
command line that sets some setting sets it to a value that it does not take. Otherwise each one is what the command
line gives, or else what the variables come to, or the file, or what is standard; and two sessions whose layers set the
same under the names of settings run with the same. -/
theorem settings_of_highest_layer (s : Session) (a : Arguments) (file : Table)
    (hfile : fileLayer s.disk "." (a.value? .config) = .ok file) (hf : file.Plain) (he : s.env.settings.Plain) :
    ((∃ cause, s.config a = .error cause) ↔
      Setting.outputPath.IllTyped [s.env.settings, file] ∨ Setting.allowedExtensions.IllTyped [s.env.settings, file] ∨
      Setting.excludeGlobs.IllTyped [s.env.settings, file] ∨ Setting.followSymlinks.IllTyped [s.env.settings, file] ∨
      Setting.apiBaseUrl.IllTyped [s.env.settings, file] ∨
      Setting.requestTimeoutSecs.IllTyped [s.env.settings, file] ∨
      Setting.copyToClipboard.IllTyped [s.env.settings, file] ∨
      Setting.token.IllTyped [s.env.token, s.env.settings, file]) ∧
    (∀ c, s.config a = .ok c →
      (a.value? .output).or (Setting.outputPath.from? [s.env.settings, file]) = some c.outputPath ∧
      ((a.value? .extensions).map fun v => extensionsOf (itemsOf v)).or
        (Setting.allowedExtensions.from? [s.env.settings, file]) = some c.allowedExtensions ∧
      ((a.value? .excludeGlob).map fun v => globsOf (itemsOf v)).or
        (Setting.excludeGlobs.from? [s.env.settings, file]) = some c.excludeGlobs ∧
      (if a.switches.contains .followSymlinks then some true else Setting.followSymlinks.from? [s.env.settings, file]) =
        some c.followSymlinks ∧
      Setting.apiBaseUrl.from? [s.env.settings, file] = some c.apiBaseUrl ∧
      Setting.requestTimeoutSecs.from? [s.env.settings, file] = some c.requestTimeoutSecs ∧
      (if a.switches.contains .noClipboard then some false else Setting.copyToClipboard.from? [s.env.settings, file]) =
        some c.copyToClipboard) ∧
    (∀ (s' : Session) (file' : Table), fileLayer s'.disk "." (a.value? .config) = .ok file' → file'.Plain →
      s'.env.settings.Plain →
      (∀ name ∈ settingNames, file'.last? name = file.last? name ∧
        s'.env.settings.last? name = s.env.settings.last? name ∧ s'.env.token.last? name = s.env.token.last? name) →
      s'.config a = s.config a) := by
  refine ⟨?_, ?_, ?_⟩
  · rw [config_eq_error_iff, exists_load_iff hfile hf he]
    exact not_fromLayers_iff
  · intro c hc
    obtain ⟨loaded, hloaded, rfl⟩ := config_eq_ok_iff.1 hc
    obtain ⟨token, hlayers, -⟩ := (load_eq_ok_iff hfile hf he).1 hloaded
    -- a switch sets its setting one way only
    have hswitch : ∀ (given : Bool) (way below : Bool), (if given then some way else some below) =
        some ((if given then some way else none).getD below) := by decide
    rw [hlayers.outputPath, hlayers.allowedExtensions, hlayers.excludeGlobs, hlayers.followSymlinks,
      hlayers.copyToClipboard, Option.or_some, Option.or_some, Option.or_some, hswitch, hswitch,
      ← Arguments.overrides_allowedExtensions]
    exact ⟨rfl, rfl, rfl, rfl, hlayers.apiBaseUrl, hlayers.requestTimeoutSecs, rfl⟩
  · intro s' file' hfile' hf' he' hagree
    have hsame : load s'.disk s'.env "." (a.value? .config) = load s.disk s.env "." (a.value? .config) := by
      refine load_eq_of_ok_iff hfile' hfile fun c => ⟨fun h => ?_, fun h => ?_⟩
      · refine load_of_agree hfile' hf' he' hfile hf he (fun name hname => ?_) h
        obtain ⟨hfiles, henvs, htokens⟩ := hagree name hname
        exact ⟨hfiles.symm, henvs.symm, htokens.symm⟩
      · exact load_of_agree hfile hf he hfile' hf' he' hagree h
    rw [Session.config, Session.config, hsame]

/-! An output file that the file and the command line give, globs that the file gives a number for and a variable gives
rightly, a time limit that both give, and a name that nothing is named by. -/

def layeredText : String := "output_path = \"file.txt\"\nexclude_globs = 1\nrequest_timeout_secs = 5\nunheard_of = 1\n"

def layeredFile : Table :=
  [("output_path", .text "file.txt"), ("exclude_globs", .whole 1), ("request_timeout_secs", .whole 5),
    ("unheard_of", .whole 1)]

def layeredSession : Session where
  env := [("PIPMYRIDE_EXCLUDE_GLOBS", "*.md"), ("PIPMYRIDE_REQUEST_TIMEOUT_SECS", "9")]
  input := ""
  disk := { entries := [("pipmyride.toml", .file (utf8Of layeredText))] }
  web := .answering fun _ => .error "no network"
  completions := fun _ => ""
  clipboard := .copied
  elapsed := ""

def layeredArguments : Arguments := ⟨none, [(.output, "out.txt")], [.followSymlinks]⟩

theorem layeredSession_file : fileLayer layeredSession.disk "." none = .ok layeredFile := by
  have hread : layeredSession.disk.read "./pipmyride.toml" = .ok (utf8Of layeredText) := rfl
  have hparse : Format.toml.parse? layeredText.toList = some layeredFile := by decide +kernel
  exact fileLayer_usual rfl hread hparse

theorem layeredSession_settings :
    fileLayer layeredSession.disk "." (layeredArguments.value? .config) = .ok layeredFile ∧ layeredFile.Plain ∧
      layeredSession.env.settings.Plain ∧
      ∃ c, layeredSession.config layeredArguments = .ok c ∧ c.outputPath = "out.txt" ∧
        c.allowedExtensions = [".py"] ∧ c.excludeGlobs = ["*.md"] ∧ c.followSymlinks = true ∧
        c.requestTimeoutSecs = 9 := by
  have henv : layeredSession.env.settings = [("exclude_globs", .text "*.md"), ("request_timeout_secs", .whole 9)] := rfl
  have hf : layeredFile.Plain := by decide
  have he : layeredSession.env.settings.Plain := by rw [henv]; decide
  obtain ⟨herror, hok, -⟩ :=
    settings_of_highest_layer layeredSession layeredArguments layeredFile layeredSession_file hf he
  refine ⟨layeredSession_file, hf, he, ?_⟩
  cases hc : layeredSession.config layeredArguments with
  | error cause =>
    have htyped := herror.1 ⟨cause, hc⟩
    simp only [← Setting.from?_eq_none_iff, henv] at htyped
    exact absurd htyped (by decide)
  | ok c =>
    obtain ⟨houtput, hextensions, hglobs, hfollow, -, htimeout, -⟩ := hok c hc
    rw [henv] at hextensions hglobs htimeout
    exact ⟨c, rfl, (Option.some.inj houtput).symm, (Option.some.inj hextensions).symm, (Option.some.inj hglobs).symm,
      (Option.some.inj hfollow).symm, (Option.some.inj htimeout).symm⟩

end ImportHarvest.CommandLine

import ImportHarvest.CommandLine.Run
import ImportHarvest.Proofs.Rerun
/-!
Command lines that are rejected.

A command line is rejected when its settings cannot be loaded, when its input names no source, or when an exclude glob
has no meaning, whatever layer the glob comes from and wherever it stands (`Rejects`). Such a run ends in a failure
before anything is written (`run_of_rejects`). Every other failure of a run is one of a run that came to its artifact
(`rejected_of_error`), and it says something else (`text_ne`). So who is told of a rejection still has all files as they
were (`rejected_run_changes_nothing`).
-/

namespace ImportHarvest

open Text

/-! ## Globs without a meaning -/

/-- whether a pattern has no meaning as a glob -/
def isBadGlob (pattern : String) : Bool :=
  match Glob.parse pattern with
  | .ok _ => false
  | .error _ => true

/-- the first glob without a meaning -/
structure FirstBadGlob (globs : List String) (pattern : String) (cause : Glob.PatternError) : Prop where
  first : globs.find? isBadGlob = some pattern
  bad : Glob.parse pattern = .error cause

theorem isBadGlob_iff {pattern : String} : isBadGlob pattern = true ↔ ∃ cause, Glob.parse pattern = .error cause := by
  unfold isBadGlob
  cases Glob.parse pattern <;> simp

/-- wherever a glob without a meaning stands, there is a first one -/
theorem firstBadGlob_of_mem {globs : List String} {pattern : String} (h : pattern ∈ globs)
    (hp : isBadGlob pattern = true) : ∃ pattern cause, FirstBadGlob globs pattern cause := by
  obtain ⟨first, hf⟩ := Option.isSome_iff_exists.1 (List.find?_isSome.2 ⟨pattern, h, hp⟩)
  obtain ⟨cause, hc⟩ := isBadGlob_iff.1 (List.find?_some hf)
  exact ⟨first, cause, hf, hc⟩

/-- a traversal fails as its first item that fails -/
theorem mapM_eq_error_iff {α β ε : Type} {f : α → Except ε β} {xs : List α} {e : ε} :
    xs.mapM f = .error e ↔ ∃ x, xs.find? (fun x => (f x).toOption.isNone) = some x ∧ f x = .error e := by
  induction xs with
  | nil => simp [pure, Except.pure]
  | cons x xs ih =>
    rw [List.mapM_cons, List.find?_cons]
    cases hx : f x with
    | error e' => simp [bind, Except.bind, Except.toOption, hx]
    | ok b =>
      have hrest : (do let y ← Except.ok b; let ys ← xs.mapM f; pure (y :: ys)) = Except.error e ↔
          xs.mapM f = .error e := by
        cases xs.mapM f <;> simp [bind, Except.bind, pure, Except.pure]
      rw [hrest, ih]
      simp [Except.toOption]

/-- there is no filter exactly when a glob has no meaning, and the first one is told -/
theorem Filter.make_eq_error_iff {extensions globs : List String} {e : Failure} :
    make extensions globs = .error e ↔
      ∃ pattern cause, FirstBadGlob globs pattern cause ∧ e = .config (globMessage pattern cause) := by
  have hmake : make extensions globs = .error e ↔ (globs.mapM fun pattern =>
      (Glob.parse pattern).mapError fun e => Failure.config (globMessage pattern e)) = .error e := by
    unfold make
    cases globs.mapM fun pattern => (Glob.parse pattern).mapError fun e => Failure.config (globMessage pattern e) <;>
      simp [Except.map]
  have hbad : (fun pattern : String => ((Glob.parse pattern).mapError fun e =>
      Failure.config (globMessage pattern e)).toOption.isNone) = isBadGlob := by
    funext pattern
    unfold isBadGlob
    cases Glob.parse pattern <;> rfl
  rw [hmake, mapM_eq_error_iff, hbad]
  constructor
  · rintro ⟨pattern, hf, he⟩
    obtain ⟨cause, hc⟩ := isBadGlob_iff.1 (List.find?_some hf)
    rw [hc] at he
    exact ⟨pattern, cause, ⟨hf, hc⟩, (Except.error.inj he).symm⟩
  · rintro ⟨pattern, cause, ⟨hf, hc⟩, rfl⟩
    exact ⟨pattern, hf, by rw [hc]; rfl⟩

/-- an input that names no source is said to be invalid -/
theorem Selection.invalid_of_ofInput {disk : Disk} {config : Config} {input : String} {e : Failure}
    (h : ofInput disk config input = .error e) : ∃ detail, e = .invalidInput detail := by
  unfold ofInput at h
  dsimp only at h
  split at h
  · unfold RepoLocation.parse at h
    cases hp : RepoLocation.parse? (trimmed input) with
    | none => rw [hp] at h; cases h; exact ⟨_, rfl⟩
    | some location => rw [hp] at h; cases h
  · split at h
    · cases h
    · cases h
      exact ⟨_, rfl⟩

/-- a run fails for a glob when there is no filter -/
theorem make_of_badGlob {steps : Nat} {source : TreeSource BufferedFile} {config : Config} {disk : Disk} {run : Run}
    {e : Failure} (h : runPipeline steps source config disk = some run) (he : run.result = .error (.badGlob e)) :
    Filter.make config.allowedExtensions config.excludeGlobs = .error e := by
  unfold runPipeline at h
  split at h
  · rename_i hm
    cases h
    cases he
    exact hm
  · split at h
    · cases h
      cases he
    · split at h
      · cases h
      · cases h
        cases he
      · dsimp only at h
        split at h <;> cases h <;> cases he

namespace CommandLine

/-! ## Rejections -/

/-- why a command line is rejected -/
inductive Rejection where
  /-- the settings cannot be loaded -/
  | settings (cause : Settings.LoadError)
  /-- the input names no source -/
  | source (detail : String)
  /-- an exclude glob has no meaning -/
  | glob (pattern : String) (cause : Glob.PatternError)

/-- what is said of a rejection -/
def Rejection.chain : Rejection → List String
  | settings cause => [cause.message]
  | source detail => [(Failure.invalidInput detail).message]
  | glob pattern cause => ["Invalid exclude glob", (Failure.config (Filter.globMessage pattern cause)).message]

namespace Session

/-- the arguments are read, and ask for a run -/
def AsksRun (args : List String) (a : Arguments) : Prop :=
  Arguments.read args = .ok a ∧ a.value? .completions = none

/-- the command line asks for a run that is rejected -/
inductive Rejects (s : Session) (args : List String) : Rejection → Prop where
  | settings {a : Arguments} {cause : Settings.LoadError} :
      AsksRun args a → s.config a = .error cause → Rejects s args (.settings cause)
  | source {a : Arguments} {config : Config} {detail : String} :
      AsksRun args a → s.config a = .ok config →
      Selection.ofInput s.disk config (s.source a).2 = .error (.invalidInput detail) → Rejects s args (.source detail)
  | glob {a : Arguments} {config : Config} {selection : Selection} {pattern : String} {cause : Glob.PatternError} :
      AsksRun args a → s.config a = .ok config → Selection.ofInput s.disk config (s.source a).2 = .ok selection →
      FirstBadGlob config.excludeGlobs pattern cause → Rejects s args (.glob pattern cause)

variable {s : Session} {args : List String} {a : Arguments} {config : Config} {selection : Selection} {steps : Nat}
  {rejection : Rejection} {ending : Ending}

theorem run_of_asksRun (h : AsksRun args a) : s.run steps args = s.start steps a := by
  rw [run, h.1]
  dsimp only
  rw [h.2]

/-- the run of a selection is the run of a source -/
theorem pipeline_eq (s : Session) (config : Config) (selection : Selection) :
    ∃ source, ∀ steps, s.pipeline steps config selection = runPipeline steps source config s.disk := by
  cases selection with
  | remote rootUrl => exact ⟨_, fun _ => rfl⟩
  | directory tree => exact ⟨_, fun _ => rfl⟩

/-- a run that is rejected ends in a failure, whatever its walk may take, and nothing is changed or asked for -/
theorem run_of_rejects (h : s.Rejects args rejection) (steps : Nat) :
    ∃ shown, s.run steps args = some ⟨1, shown, some (failureText rejection.chain), s.disk, []⟩ := by
  cases h with
  | settings ha hc =>
    refine ⟨"", ?_⟩
    rw [run_of_asksRun ha, start, hc]
    rfl
  | @source a _ _ ha hc hs =>
    refine ⟨(s.source a).1, ?_⟩
    rw [run_of_asksRun ha, start, hc]
    simp only [hs]
    rfl
  | @glob a config selection _ _ ha hc hs hg =>
    obtain ⟨source, hp⟩ := s.pipeline_eq config selection
    have hm : Filter.make config.allowedExtensions config.excludeGlobs = .error _ :=
      Filter.make_eq_error_iff.2 ⟨_, _, hg, rfl⟩
    refine ⟨(s.source a).1 ++ "", ?_⟩
    rw [run_of_asksRun ha, start, hc]
    simp only [hs, hp, runPipeline, hm]
    rfl

theorem result_of_ending {prompted source text : String} {run : Run}
    (h : (s.ending config prompted source run).error = some text) :
    ∃ e, run.result = .error e ∧ text = failureText e.chain := by
  unfold Session.ending at h
  cases hres : run.result with
  | ok outcome => rw [hres] at h; cases h
  | error e =>
    rw [hres] at h
    exact ⟨e, rfl, (Option.some.inj h).symm⟩

/-- a command line that fails asked for a run -/
theorem asksRun_of_error {text : String} (h : s.run steps args = some ending) (he : ending.error = some text) :
    ∃ a, AsksRun args a ∧ s.start steps a = some ending := by
  unfold run at h
  cases ha : Arguments.read args with
  | error halt => cases halt <;> rw [ha] at h <;> cases h <;> cases he
  | ok a =>
    rw [ha] at h
    dsimp only at h
    cases hshell : a.value? .completions with
    | some shell => rw [hshell] at h; cases h; cases he
    | none =>
      rw [hshell] at h
      exact ⟨a, ⟨ha, hshell⟩, h⟩

/-- a run that fails was rejected, or it failed behind its globs -/
theorem rejected_of_error {text : String} (h : s.run steps args = some ending) (he : ending.error = some text) :
    (∃ rejection, s.Rejects args rejection ∧ text = failureText rejection.chain) ∨
      ∃ e : RunError, (∀ cause, e ≠ .badGlob cause) ∧ text = failureText e.chain := by
  obtain ⟨a, ha, h⟩ := asksRun_of_error h he
  unfold start at h
  cases hc : s.config a with
  | error cause =>
    rw [hc] at h
    cases h
    exact .inl ⟨_, .settings ha hc, (Option.some.inj he).symm⟩
  | ok config =>
    rw [hc] at h
    dsimp only at h
    cases hs : Selection.ofInput s.disk config (s.source a).2 with
    | error e =>
      obtain ⟨detail, rfl⟩ := Selection.invalid_of_ofInput hs
      rw [hs] at h
      cases h
      exact .inl ⟨_, .source ha hc hs, (Option.some.inj he).symm⟩
    | ok selection =>
      rw [hs] at h
      obtain ⟨run, hr, rfl⟩ := Option.map_eq_some_iff.1 h
      obtain ⟨e, hres, rfl⟩ := result_of_ending he
      by_cases hglob : ∃ cause, e = .badGlob cause
      · obtain ⟨cause, rfl⟩ := hglob
        obtain ⟨source, hp⟩ := s.pipeline_eq config selection
        rw [hp] at hr
        obtain ⟨pattern, cause, hg, rfl⟩ := Filter.make_eq_error_iff.1 (make_of_badGlob hr hres)
        exact .inl ⟨_, .glob ha hc hs hg, rfl⟩
      · exact .inr ⟨e, not_exists.1 hglob, rfl⟩

end Session

/-! ## What is said of them -/

theorem toList_failureText (message : String) (causes : List String) :
    ∃ rest, (failureText (message :: causes)).toList = "Error: ".toList ++ (message.toList ++ rest) := by
  unfold failureText
  split
  · rename_i h
    cases h
  · rename_i h
    cases h
    exact ⟨[], by simp⟩
  · rename_i h
    cases h
    exact ⟨_, by simp only [String.toList_append, List.append_assoc]; rfl⟩
  · rename_i h
    cases h
    exact ⟨_, by simp only [String.toList_append, List.append_assoc]; rfl⟩

/-- what is said of two failures differs where what is said first does -/
theorem char_of_failureText_eq {m m' : String} {causes causes' : List String}
    (h : failureText (m :: causes) = failureText (m' :: causes')) (i : Nat) {c c' : Char}
    (hc : m.toList[i]? = some c) (hc' : m'.toList[i]? = some c') : c = c' := by
  obtain ⟨rest, hr⟩ := toList_failureText m causes
  obtain ⟨rest', hr'⟩ := toList_failureText m' causes'
  rw [h, hr', List.append_cancel_left_eq] at hr
  have hi := congrArg (fun cs : List Char => cs[i]?) hr
  rw [List.getElem?_append_left (List.getElem?_eq_some_iff.1 hc').1,
    List.getElem?_append_left (List.getElem?_eq_some_iff.1 hc).1, hc, hc'] at hi
  exact (Option.some.inj hi).symm

/-- a run that failed behind its globs says what it failed to do, and that was not to load its settings -/
theorem chain_of_ne_badGlob {e : RunError} (h : ∀ cause, e ≠ .badGlob cause) :
    ∃ message causes, e.chain = message :: causes ∧ message.toList[0]? = some 'F' ∧
      ∃ c, message.toList[10]? = some c ∧ c ≠ 'l' := by
  cases e with
  | badGlob cause => exact absurd rfl (h cause)
  | create path cause => exact ⟨"Failed to create " ++ path, _, rfl, by simp, 'c', by simp, by decide⟩
  | aggregate source cause => exact ⟨"Failed to aggregate " ++ source, _, rfl, by simp, 'a', by simp, by decide⟩
  | readBack path cause => exact ⟨"Failed to read back " ++ path, _, rfl, by simp, 'r', by simp, by decide⟩

/-- what is said of a rejection is not said of a run that failed behind its globs -/
theorem text_ne (rejection : Rejection) {e : RunError} (h : ∀ cause, e ≠ .badGlob cause) :
    failureText rejection.chain ≠ failureText e.chain := by
  intro heq
  obtain ⟨message, causes, he, hstart, c, hc, hne⟩ := chain_of_ne_badGlob h
  rw [he] at heq
  cases rejection with
  | settings cause =>
    cases cause with
    | notFound path =>
      have hcause : ("Config file not found: " ++ path).toList[0]? = some 'C' := by simp
      exact absurd (char_of_failureText_eq heq 0 hcause hstart) (by decide)
    | invalid => exact hne (char_of_failureText_eq heq 10 rfl hc).symm
  | source detail =>
    have hcause : ("Invalid input. " ++ detail).toList[0]? = some 'I' := by simp
    exact absurd (char_of_failureText_eq heq 0 hcause hstart) (by decide)
  | glob pattern cause => exact absurd (char_of_failureText_eq heq 0 rfl hstart) (by decide)

/-! ## Runs that are rejected -/

/-- **A rejected run changes nothing.** For every command line and whatever it runs in: when the settings cannot be
loaded, the input names no source or an exclude glob has no meaning, the run ends in a failure, the file system is as it
was, and nothing was asked of a server. A glob without a meaning that a run comes to has it rejected wherever it stands.
And whenever a run ends with what is said of a rejection, the file system is as it was. -/
theorem rejected_run_changes_nothing (s : Session) (args : List String) :
    (∀ rejection, s.Rejects args rejection → ∀ steps, ∃ shown,
      s.run steps args = some ⟨1, shown, some (failureText rejection.chain), s.disk, []⟩) ∧
    (∀ a config selection pattern, Session.AsksRun args a → s.config a = .ok config →
      Selection.ofInput s.disk config (s.source a).2 = .ok selection → pattern ∈ config.excludeGlobs →
      isBadGlob pattern = true → ∃ first cause, s.Rejects args (.glob first cause)) ∧
    ∀ steps ending (rejection : Rejection), s.run steps args = some ending →
      ending.error = some (failureText rejection.chain) → ending.disk = s.disk ∧ ending.requests = [] := by
  refine ⟨fun rejection h steps => Session.run_of_rejects h steps, ?_, ?_⟩
  · intro a config selection pattern ha hc hs hmem hbad
    obtain ⟨first, cause, hg⟩ := firstBadGlob_of_mem hmem hbad
    exact ⟨first, cause, .glob ha hc hs hg⟩
  · intro steps ending rejection h he
    rcases Session.rejected_of_error h he with ⟨told, ht, -⟩ | ⟨e, hne, htext⟩
    · obtain ⟨shown, hr⟩ := Session.run_of_rejects ht steps
      cases hr.symm.trans h
      exact ⟨rfl, rfl⟩
    · exact absurd htext (text_ne rejection hne)

/-! A glob without a meaning behind one that has a meaning, over a directory with an artifact of an earlier run. -/

def keptSession : Session where
  env := []
  input := ""
  disk := { entries := [("concatenated_files.txt", .file [0x78]), ("a.py", .file [])] }
  web := .answering fun _ => .error "no network"
  completions := fun _ => ""
  clipboard := .copied
  elapsed := ""

theorem keptSession_rejected :
    keptSession.Rejects ["-e", "*.md,[", "."] (.glob "[" .unclosedClass) ∧
    ∃ ending, keptSession.run 0 ["-e", "*.md,[", "."] = some ending ∧ ending.code = 1 ∧
      ending.disk.read "concatenated_files.txt" = .ok [0x78] := by
  have ha : Session.AsksRun ["-e", "*.md,[", "."] ⟨some ".", [(.excludeGlob, "*.md,[")], []⟩ := ⟨rfl, rfl⟩
  have hc : keptSession.config ⟨some ".", [(.excludeGlob, "*.md,[")], []⟩ =
      .ok { Config.standard with excludeGlobs := ["*.md", "["] } := rfl
  have hs : Selection.ofInput keptSession.disk { Config.standard with excludeGlobs := ["*.md", "["] } "." =
      .ok (.directory ⟨".", false⟩) := rfl
  have h : keptSession.Rejects ["-e", "*.md,[", "."] (.glob "[" .unclosedClass) :=
    .glob ha hc hs ⟨by decide +kernel, by cbv⟩
  obtain ⟨shown, hr⟩ := (rejected_run_changes_nothing keptSession ["-e", "*.md,[", "."]).1 _ h 0
  have hkept : keptSession.disk.read "concatenated_files.txt" = .ok [0x78] := rfl
  exact ⟨h, _, hr, rfl, hkept⟩

end CommandLine

end ImportHarvest

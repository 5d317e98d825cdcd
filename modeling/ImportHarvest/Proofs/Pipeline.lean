import ImportHarvest.Pipeline
import ImportHarvest.Proofs.Artifact
/-!
Whole runs, from an artifact that was just created to the install command.

A run `Begins` when its globs have a meaning and the artifact can be created. From there it goes through the walk of its
source: the disk it leaves is the one it found, but for the artifact, which holds the blocks of the files that were
selected (`runPipeline_of_walk`); a run that succeeds began, and its walk finished (`walk_of_runPipeline`). The artifact
is a file, which may be new, where its place is a `Disk.FilePlace`; on the null device nothing of it is kept, and there is
nothing to read back.
-/

namespace ImportHarvest

open Text

/-- the filter of a run, the place of its artifact, and the world in which its walk starts -/
structure Begins (config : Config) (disk : Disk) (filter : Filter) (place : Place) (w : World BufferedFile) :
    Prop where
  globs : Filter.make config.allowedExtensions config.excludeGlobs = .ok filter
  created : ∃ created, disk.create config.outputPath = .ok (place, created) ∧ w = { output := ⟨created, place, []⟩ }

section

variable {steps : Nat} {source : TreeSource BufferedFile} {config : Config} {disk : Disk} {filter : Filter}
  {place : Place} {w : World BufferedFile} {seen : List Sight} {ending : Ending} {run : Run}

/-- a walk starts with an empty artifact on disk and nothing in the buffer, and nothing was done before -/
theorem Begins.start (h : Begins config disk filter place w) :
    disk.Opens place ∧ w = { output := ⟨disk.store place [], place, []⟩ } := by
  obtain ⟨created, hc, rfl⟩ := h.created
  obtain ⟨ho, rfl, -⟩ := Disk.read_of_create hc
  exact ⟨ho, rfl⟩

/-- where the artifact is a file, it is empty when a walk starts -/
theorem Begins.on (h : Begins config disk filter place w) (hp : disk.FilePlace place) :
    w.output.On disk place ∧ w.output.held = [] := by
  obtain ⟨-, rfl⟩ := h.start
  rw [Disk.store_of_filePlace hp]
  exact ⟨⟨[], [], rfl⟩, (List.append_nil _).trans (BufferedFile.contentAt_put hp [])⟩

/-- the output takes everything; once its buffer is handed on, the disk has what is kept of all that was written, and is
else as it was before the run -/
theorem Begins.exists_taking (h : Begins config disk filter place w) :
    ∃ u : Sink.Taking BufferedFile, u.accepts w.output ∧ u.held w.output = [] ∧
      ∀ (f : BufferedFile) (written : Octets), u.accepts f → u.held f = u.kept written →
        f.settle.disk = disk.store place written := by
  obtain ⟨ho, rfl⟩ := h.start
  exact BufferedFile.exists_taking ho

/-- what is kept of the artifact at the end is read back under its path -/
theorem Begins.read (h : Begins config disk filter place w) (content : Octets) :
    (disk.store place content).read config.outputPath = .ok (disk.kept place content) := by
  obtain ⟨created, hc, -⟩ := h.created
  exact (Disk.read_of_create hc).2.2 content

theorem Begins.unique {filter' : Filter} {place' : Place} {w' : World BufferedFile}
    (h : Begins config disk filter place w) (h' : Begins config disk filter' place' w') :
    filter' = filter ∧ place' = place ∧ w' = w := by
  obtain ⟨created, hc, rfl⟩ := h.created
  obtain ⟨created', hc', rfl⟩ := h'.created
  obtain ⟨rfl, rfl⟩ := Prod.mk.inj (Except.ok.inj (hc.symm.trans hc'))
  exact ⟨Except.ok.inj (h'.globs.symm.trans h.globs), rfl, rfl⟩

/-- what a run makes of the result of its walk -/
def conclude (describe outputPath : String) : Except Failure RunStats × World BufferedFile → Run
  | (.error e, w) => ⟨.error (.aggregate describe e), w.output.settle.disk, w.requests, w.processed⟩
  | (.ok stats, w) =>
    let result := match w.output.settle.disk.read outputPath with
      | .error e => .error (.readBack outputPath e)
      | .ok artifact =>
        .ok ⟨outputPath, stats, harvest (decode artifact), installCommand (harvest (decode artifact))⟩
    ⟨result, w.output.settle.disk, w.requests, w.processed⟩

/-- once it begins, a run is its `aggregate`, and what is made of the result -/
theorem Begins.runPipeline_eq (h : Begins config disk filter place w) : runPipeline steps source config disk =
    (aggregate steps source filter w).map (conclude source.describe config.outputPath) := by
  obtain ⟨created, hc, rfl⟩ := h.created
  unfold runPipeline
  rw [h.globs]
  dsimp only
  rw [hc]
  dsimp only
  rcases aggregate steps source filter { output := ⟨created, place, []⟩ } with _ | ⟨e | stats, after⟩
  · rfl
  · rfl
  · dsimp only [Option.map_some, conclude]
    cases after.output.settle.disk.read config.outputPath <;> rfl

/-- a run that does not begin asks for nothing and leaves the disk as it is -/
theorem begins_or_fails (config : Config) (disk : Disk) :
    (∃ filter place w, Begins config disk filter place w) ∨
      (∀ filter place w, ¬ Begins config disk filter place w) ∧
        ∃ e, ∀ steps source, runPipeline steps source config disk = some ⟨.error e, disk, [], []⟩ := by
  unfold runPipeline
  cases hm : Filter.make config.allowedExtensions config.excludeGlobs with
  | error e =>
    refine .inr ⟨fun filter place w hb => ?_, .badGlob e, fun _ _ => rfl⟩
    cases hm.symm.trans hb.globs
  | ok filter =>
    rcases hc : disk.create config.outputPath with e | ⟨place, created⟩
    · refine .inr ⟨fun filter place w hb => ?_, .create config.outputPath e, fun _ _ => rfl⟩
      obtain ⟨created, hcreated, -⟩ := hb.created
      cases hc.symm.trans hcreated
    · exact .inl ⟨filter, place, _, hm, created, hc, rfl⟩

/-- a run that succeeds began -/
theorem begins_of_runPipeline {outcome : Outcome} (h : runPipeline steps source config disk = some run)
    (hok : run.result = .ok outcome) : ∃ filter place w, Begins config disk filter place w := by
  rcases begins_or_fails config disk with hb | ⟨-, e, hfail⟩
  · exact hb
  · rw [hfail] at h
    cases h
    cases hok

/-- **A run goes through its walk**: the artifact has the blocks of the files that were selected before the walk ended,
the rest of the disk is as it was, and the result is the failure, or what is kept of the artifact imports -/
theorem runPipeline_of_walk (hb : Begins config disk filter place w) (h : Walk source filter w seen ending)
    (hs : seen.length < steps) :
    ∃ run, runPipeline steps source config disk = some run ∧
      run.disk = disk.store place (utf8Of (blocks (selection filter seen))) ∧
      run.processed = wanted filter seen ++ ending.unread ∧
      match ending.failure? with
      | some e => run.result = .error (.aggregate source.describe e)
      | none => ∃ outcome, run.result = .ok outcome ∧
          outcome.modules = harvest (decode (disk.kept place (utf8Of (blocks (selection filter seen))))) ∧
          outcome.command = installCommand outcome.modules := by
  obtain ⟨u, hu, hheld, hsettle⟩ := hb.exists_taking
  obtain ⟨result, after, ha, hy, hproc, hu', hheld'⟩ := aggregate_of_taking u hu h hs
  have hdisk : after.output.settle.disk = disk.store place (utf8Of (blocks (selection filter seen))) := by
    rw [hheld, List.nil_append] at hheld'
    exact hsettle _ _ hu' hheld'
  have hproc' : after.processed = wanted filter seen ++ ending.unread := by
    obtain ⟨-, rfl⟩ := hb.start
    exact hproc
  refine ⟨_, by rw [hb.runPipeline_eq, ha, Option.map_some], ?_⟩
  unfold Ending.Yields at hy
  cases hf : ending.failure? with
  | some e =>
    rw [hf] at hy
    subst hy
    exact ⟨hdisk, hproc', rfl⟩
  | none =>
    rw [hf] at hy
    obtain ⟨stats, rfl⟩ := hy
    refine ⟨hdisk, hproc', ?_⟩
    dsimp only [conclude]
    rw [hdisk, hb.read]
    exact ⟨_, rfl, rfl, rfl⟩

/-- a run that succeeds began, and went through a walk that finished -/
theorem walk_of_runPipeline {outcome : Outcome} (h : runPipeline steps source config disk = some run)
    (hok : run.result = .ok outcome) :
    ∃ filter place w seen, Begins config disk filter place w ∧ seen.length < steps ∧
      Walk source filter w seen .finished := by
  obtain ⟨filter, place, w, hb⟩ := begins_of_runPipeline h hok
  obtain ⟨⟨result, after⟩, ha, -⟩ := Option.map_eq_some_iff.1 (hb.runPipeline_eq.symm.trans h)
  obtain ⟨u, hu, -⟩ := hb.exists_taking
  obtain ⟨seen, ending, hs, hw⟩ := walk_of_aggregate u hu ha
  obtain ⟨run', hr, -, -, hres⟩ := runPipeline_of_walk hb hw hs
  obtain rfl : run' = run := Option.some_inj.1 (hr.symm.trans h)
  cases ending with
  | finished => exact ⟨filter, place, w, seen, hb, hs, hw⟩
  | walkFailed e => rw [show run'.result = _ from hres] at hok; cases hok
  | readFailed r e => rw [show run'.result = _ from hres] at hok; cases hok

end

end ImportHarvest

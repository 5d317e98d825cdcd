import ImportHarvest.Proofs.Pipeline
/-!
Runs whose source fails.

The failure may come from the walk or from the read of a file that is wanted, and at any record. Either way the run ends
with that very failure and asks the source for nothing more, and what was written until then is whole: the artifact of
the records before, in memory and on disk (`failure_keeps_artifact`).
-/

namespace ImportHarvest

open Text

/-- **A failure keeps what came before it.** When a walk ends in a failure, a run of it gives that failure; its output
has gained the artifact of the records before and nothing else; the files taken up are those that the filter wants among
these records, and the file that could not be read; and no call follows the one that failed. A whole run whose output is
a file, and not the null device, leaves the artifact on disk, in place of what the file held before, and the rest of the
disk as it was. -/
theorem failure_keeps_artifact (filter : Filter) (seen : List Sight) (ending : Ending) (e : Failure)
    (he : ending.failure? = some e) (steps : Nat) (hs : seen.length < steps) :
    (∀ (τ : Type) [Sink τ] (u : Sink.Unlimited τ) (source : TreeSource τ) (w : World τ),
      u.accepts w.output → Walk source filter w seen ending →
      ∃ after text, aggregate steps source filter w = some (.error e, after) ∧ Artifact filter seen text ∧
        u.held after.output = u.held w.output ++ utf8Of text ∧
        after.processed = w.processed ++ wanted filter seen ++ ending.unread ∧
        answers steps source filter w = seen.flatMap (callsFor filter) ++ ending.calls) ∧
    (∀ (source : TreeSource BufferedFile) (config : Config) (disk : Disk) (place : Place) (w : World BufferedFile),
      Begins config disk filter place w → Walk source filter w seen ending →
      ∃ run text, runPipeline steps source config disk = some run ∧
        run.result = .error (.aggregate source.describe e) ∧ Artifact filter seen text ∧
        (disk.FilePlace place → run.disk = disk.put place (.file (utf8Of text)) ∧
          run.disk.read config.outputPath = .ok (utf8Of text)) ∧
        run.processed = wanted filter seen ++ ending.unread) := by
  constructor
  · intro τ _ u source w hu h
    obtain ⟨result, after, hr, hy, hp, -, hh⟩ := aggregate_of_walk u hu h hs
    unfold Ending.Yields at hy
    rw [he] at hy
    subst hy
    exact ⟨after, blocks (selection filter seen), hr, artifact_iff.2 rfl, hh, hp, answers_of_walk u.toTaking hu h hs⟩
  · intro source config disk place w hb h
    obtain ⟨run, hr, hd, hp, hres⟩ := runPipeline_of_walk hb h hs
    rw [he] at hres
    refine ⟨run, blocks (selection filter seen), hr, hres, artifact_iff.2 rfl, fun hfile => ?_, hp⟩
    have hread := hb.read (utf8Of (blocks (selection filter seen)))
    rw [Disk.kept_of_filePlace hfile] at hread
    rw [hd]
    exact ⟨Disk.store_of_filePlace hfile _, hread⟩

/-! The small tree again, with another Python file that cannot be read; the artifact on disk held an octet before. -/

def lockedRecord : Record := ⟨"b.py", "b.py", "b.py", false, .path "b.py"⟩

def lockedFailure : Failure := .transfer "b.py" "no answer"

def lockedTree (τ : Type) : TreeSource τ :=
  .ofItems "locked" (fun _ => [.ok libRecord, .ok pythonRecord, .ok lockedRecord, .ok notesRecord])
    fun r _ => if r = lockedRecord then .error lockedFailure else .ok (utf8Of "import os")

def takenDisk : Disk := { entries := [("out", .file [0x78])] }

def lockedSeen : List Sight := [(libRecord, []), (pythonRecord, utf8Of "import os")]

theorem lockedTree_walk {τ : Type} [Sink τ] (w : World τ) :
    Walk (lockedTree τ) pythonFilter w lockedSeen (.readFailed lockedRecord lockedFailure) :=
  ⟨_, _, _, _, .cons (.passed rfl rfl) (.cons (.read rfl (by decide) rfl) .nil), .readFailed rfl (by decide) rfl⟩

theorem lockedTree_keeps_artifact :
    (∃ after text, aggregate 3 (lockedTree LimitedSink) pythonFilter { output := .unlimited } =
        some (.error lockedFailure, after) ∧
      Artifact pythonFilter lockedSeen text ∧ after.output.held = utf8Of text ∧
      after.processed = [pythonRecord, lockedRecord]) ∧
    ∃ run text, runPipeline 3 (lockedTree BufferedFile) { Config.standard with outputPath := "out" } takenDisk =
        some run ∧
      run.result = .error (.aggregate "locked" lockedFailure) ∧ Artifact pythonFilter lockedSeen text ∧
      run.disk.read "out" = .ok (utf8Of text) := by
  have hb : Begins { Config.standard with outputPath := "out" } takenDisk pythonFilter ["out"]
      { output := ⟨takenDisk.put ["out"] (.file []), ["out"], []⟩ } := ⟨rfl, _, rfl, rfl⟩
  obtain ⟨hmem, hdisk⟩ := failure_keeps_artifact pythonFilter lockedSeen (.readFailed lockedRecord lockedFailure)
    lockedFailure rfl 3 (by decide)
  obtain ⟨after, text, hr, ha, hh, hp, -⟩ := hmem _ LimitedSink.takesAll _ { output := .unlimited } ⟨rfl, rfl⟩
    (lockedTree_walk _)
  obtain ⟨run, text', hr', hres, ha', hread, -⟩ := hdisk _ _ _ _ _ hb (lockedTree_walk _)
  have hfile : takenDisk.FilePlace ["out"] := Disk.filePlace_top (.inr ⟨_, rfl⟩)
  exact ⟨⟨after, text, hr, ha, hh, hp.trans (by decide)⟩, run, text', hr', hres, ha', (hread hfile).2⟩

end ImportHarvest

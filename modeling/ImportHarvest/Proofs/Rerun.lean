import ImportHarvest.Proofs.Pipeline
/-!
Running again.

A run writes nothing but its artifact, and it empties the artifact before its walk starts. So a run from the file system
that an earlier run left begins in the very world in which the earlier one began (`Begins.again`), wherever the artifact
lies, whether it was there before or not, and also where it is the null device; and it comes to the very same
(`runPipeline_again`). A run over a directory comes to an end (`walk_of_items`), so that there is always something to
repeat.
-/

namespace ImportHarvest

open Text

/-! ## Steps enough -/

section

variable {τ : Type} [Sink τ] {source : TreeSource τ} {filter : Filter} {w : World τ} {steps more : Nat}

/-- a run that is over stays as it is when it may take more steps -/
theorem Progress.run_of_le {p q : Progress source} {result : Except Failure RunStats}
    (h : p.run filter steps = (some result, q)) (hle : steps ≤ more) : p.run filter more = (some result, q) := by
  induction steps generalizing p more with
  | zero => cases h
  | succ n ih =>
    obtain ⟨m, rfl⟩ : ∃ m, more = m + 1 := ⟨more - 1, by omega⟩
    rw [run] at h ⊢
    rcases hs : p.step filter with ⟨_ | last, p'⟩
    · rw [hs] at h
      exact ih h (by omega)
    · rw [hs] at h
      exact h

theorem aggregate_of_le {answer : Except Failure RunStats × World τ}
    (h : aggregate steps source filter w = some answer) (hle : steps ≤ more) :
    aggregate more source filter w = some answer := by
  unfold aggregate at h ⊢
  rcases hr : (Progress.start source w).run filter steps with ⟨_ | result, p⟩
  · rw [hr] at h
    cases h
  · rw [hr] at h
    rw [Progress.run_of_le hr hle]
    exact h

/-- a source whose walk is worked out beforehand has no more records than that -/
theorem walk_of_items (describe : String) (items : World τ → List (Except Failure Record))
    (read : Record → World τ → Except Failure Octets) (filter : Filter) (w : World τ) :
    ∃ seen ending, Walk (.ofItems describe items read) filter w seen ending ∧ seen.length ≤ (items w).length := by
  have hall : ∀ (c : List (Except Failure Record)) (w : World τ), ∃ seen ending c₁ w₁ c₂ w₂,
      GivesAll (.ofItems describe items read) filter c w seen c₁ w₁ ∧
        Ends (.ofItems describe items read) filter c₁ w₁ ending c₂ w₂ ∧ seen.length ≤ c.length := by
    intro c
    induction c with
    | nil =>
      intro w
      exact ⟨[], _, _, _, _, _, .nil, .finished rfl, Nat.le_refl 0⟩
    | cons item rest ih =>
      intro w
      rcases item with e | r
      · exact ⟨[], _, _, _, _, _, .nil, .walkFailed rfl, Nat.zero_le _⟩
      · cases hw : filter.wants r with
        | false =>
          obtain ⟨seen, ending, c₁, w₁, c₂, w₂, hg, he, hl⟩ := ih (w.request [])
          exact ⟨_, _, _, _, _, _, .cons (.passed rfl hw) hg, he, Nat.succ_le_succ hl⟩
        | true =>
          cases hr : read r ((w.request []).process r) with
          | error e =>
            have hread : (TreeSource.ofItems describe items read).read r rest ((w.request []).process r) =
                (.error e, rest, []) := by rw [← hr]; rfl
            exact ⟨[], _, _, _, _, _, .nil, .readFailed rfl hw hread, Nat.zero_le _⟩
          | ok content =>
            have hread : (TreeSource.ofItems describe items read).read r rest ((w.request []).process r) =
                (.ok content, rest, []) := by rw [← hr]; rfl
            obtain ⟨seen, ending, c₁, w₁, c₂, w₂, hg, he, hl⟩ :=
              ih ((((w.request []).process r).request []).withBlock filter (r, content))
            exact ⟨_, _, _, _, _, _, .cons (.read rfl hw hread) hg, he, Nat.succ_le_succ hl⟩
  obtain ⟨seen, ending, c₁, w₁, c₂, w₂, hg, he, hl⟩ := hall (items w) w
  exact ⟨seen, ending, ⟨c₁, w₁, c₂, w₂, hg, he⟩, hl⟩

end

/-! ## The same world -/

section

variable {steps more : Nat} {source : TreeSource BufferedFile} {config : Config} {disk : Disk} {filter : Filter}
  {place : Place} {w : World BufferedFile} {run : Run}

/-- whatever the artifact came to hold, a run begins again in the same world -/
theorem Begins.again (h : Begins config disk filter place w) (content : Octets) :
    Begins config (disk.store place content) filter place w := by
  obtain ⟨created, hc, hw⟩ := h.created
  exact ⟨h.globs, created, Disk.create_of_create hc content, hw⟩

/-- a run begins, or its globs have no meaning or its artifact cannot be created; then it says so and touches nothing -/
theorem begins_or_refused (source : TreeSource BufferedFile) (config : Config) (disk : Disk) :
    (∃ filter place w, Begins config disk filter place w) ∨
      ∃ e, ∀ steps, runPipeline steps source config disk = some ⟨.error e, disk, [], []⟩ := by
  cases hm : Filter.make config.allowedExtensions config.excludeGlobs with
  | error e =>
    refine .inr ⟨.badGlob e, fun steps => ?_⟩
    rw [runPipeline, hm]
  | ok filter =>
    rcases hc : disk.create config.outputPath with e | ⟨place, created⟩
    · refine .inr ⟨.create config.outputPath e, fun steps => ?_⟩
      rw [runPipeline, hm]
      simp only [hc]
    · exact .inl ⟨filter, place, _, hm, created, hc, rfl⟩

theorem runPipeline_of_le (h : runPipeline steps source config disk = some run) (hle : steps ≤ more) :
    runPipeline more source config disk = some run := by
  rcases begins_or_refused source config disk with ⟨filter, place, w, hb⟩ | ⟨e, he⟩
  · rw [hb.runPipeline_eq] at h ⊢
    obtain ⟨answer, ha, rfl⟩ := Option.map_eq_some_iff.1 h
    rw [aggregate_of_le ha hle, Option.map_some]
  · rw [he] at h ⊢
    exact h

/-- **A run leaves what it would find**: from the file system that it left, it comes to the same result, makes the same
requests, takes up the same files and leaves the same file system -/
theorem runPipeline_again (h : runPipeline steps source config disk = some run) :
    runPipeline steps source config run.disk = some run := by
  rcases begins_or_refused source config disk with ⟨filter, place, w, hb⟩ | ⟨e, he⟩
  · -- the run changed nothing but the artifact, and what that holds makes no difference
    obtain ⟨⟨result, after⟩, ha, -⟩ := Option.map_eq_some_iff.1 (hb.runPipeline_eq.symm.trans h)
    obtain ⟨u, hu, -⟩ := hb.exists_taking
    obtain ⟨seen, ending, hs, hw⟩ := walk_of_aggregate u hu ha
    obtain ⟨run', hr, hdisk, -⟩ := runPipeline_of_walk hb hw hs
    obtain rfl : run' = run := Option.some_inj.1 (hr.symm.trans h)
    rw [hdisk, (hb.again _).runPipeline_eq, ← hb.runPipeline_eq]
    exact h
  · obtain rfl : ⟨.error e, disk, [], []⟩ = run := Option.some_inj.1 ((he steps).symm.trans h)
    exact h

end

/-! ## Directories -/

/-- **A second run changes nothing.** For every directory, all settings and every file system, wherever the artifact lies:
given steps enough, a run comes to an end, and a run from the file system that it left has the same result and leaves the
same file system, artifact and all. -/
theorem second_run_changes_nothing (t : LocalTree) (config : Config) (disk : Disk) :
    ∃ bound run, ∀ steps, bound ≤ steps → runPipeline steps t.source config disk = some run ∧
      runPipeline steps t.source config run.disk = some run := by
  obtain ⟨bound, run, h⟩ : ∃ bound run, runPipeline bound t.source config disk = some run := by
    rcases begins_or_refused t.source config disk with ⟨filter, place, w, hb⟩ | ⟨e, he⟩
    · obtain ⟨seen, ending, hw, -⟩ := walk_of_items t.root (fun w => (t.walk w.output.disk).items)
        (fun r w => LocalTree.read w.output.disk r) filter w
      have hw' : Walk t.source filter w seen ending := hw
      obtain ⟨run, hr, -⟩ := runPipeline_of_walk hb hw' seen.length.lt_succ_self
      exact ⟨_, run, hr⟩
    · exact ⟨0, _, he 0⟩
  refine ⟨bound, run, fun steps hle => ⟨runPipeline_of_le h hle, ?_⟩⟩
  exact runPipeline_of_le (runPipeline_again h) hle

/-! A directory with a Python file in it, walked for text files too, so that the artifact becomes one of its files. -/

def toolDisk : Disk := { entries := [("a.py", .file (utf8Of "import os\n"))] }

def textConfig : Config := { Config.standard with allowedExtensions := [".py", ".txt"] }

theorem toolDisk_second_run : ∃ steps run,
    runPipeline steps (LocalTree.source ⟨".", false⟩) textConfig toolDisk = some run ∧
    runPipeline steps (LocalTree.source ⟨".", false⟩) textConfig run.disk = some run := by
  obtain ⟨bound, run, h⟩ := second_run_changes_nothing ⟨".", false⟩ textConfig toolDisk
  exact ⟨bound, run, h bound (Nat.le_refl bound)⟩

end ImportHarvest

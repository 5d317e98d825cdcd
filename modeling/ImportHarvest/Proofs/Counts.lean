import ImportHarvest.Proofs.Pipeline
import Mathlib.Data.List.Induction
/-!
What a run counts.

Every record of a walk has one fate (`fateOf`), said of its kind, its name, its path and the content of its file. A step
that goes on counts the fate of its record and no other (`stats_of_gives`), so what a run has counted when it succeeds is
the tally of its walk (`tally_of_run`), whatever the source and the output are: each counter is the number of records
with its fate, and the octets are those of the blocks, which the output has gained (`stats_count_records`).
-/

namespace ImportHarvest

open Text

/-! ## Fates -/

/-- what becomes of a record in a run -/
inductive Fate where
  | directory
  | otherExtension
  | excluded
  | malformed
  | included
  deriving DecidableEq, Repr

/-- a directory is passed over, then a file with another extension, then an excluded one; a notebook without a script is
malformed, and what is left is included -/
def fateOf (filter : Filter) (s : Sight) : Fate :=
  if s.1.isDir then .directory
  else if ¬ ∃ ext ∈ filter.extensions, ext.toList <:+ s.1.name.toList then .otherExtension
  else if filter.isExcluded s.1.relativePath then .excluded
  else if ".ipynb".toList <:+ s.1.name.toList then
    match scriptOf (decode s.2) with
    | .error _ => .malformed
    | .ok _ => .included
  else .included

/-- the number of records with a fate -/
def countOf (filter : Filter) (fate : Fate) (seen : List Sight) : Nat := seen.countP fun s => fateOf filter s = fate

/-- the records that are taken up: the included ones and the malformed notebooks -/
def takenUp (filter : Filter) (seen : List Sight) : List Sight :=
  seen.filter fun s => fateOf filter s = .included ∨ fateOf filter s = .malformed

/-- what a walk comes to in numbers -/
def tally (filter : Filter) (seen : List Sight) : RunStats where
  filesSeen := seen.countP fun s => fateOf filter s ≠ .directory
  directoriesSeen := countOf filter .directory seen
  filesIncluded := countOf filter .included seen
  filesSkippedExtension := countOf filter .otherExtension seen
  filesSkippedGlob := countOf filter .excluded seen
  filesSkippedMalformed := countOf filter .malformed seen
  bytesWritten := (utf8Of (blocks (selection filter seen))).length

section

variable {filter : Filter}

/-- the filter's verdict settles the fate of a record, but for a file that is taken: there it is its text -/
theorem fateOf_eq (filter : Filter) (s : Sight) : fateOf filter s =
    match filter.verdict s.1 with
    | .directory => .directory
    | .otherExtension => .otherExtension
    | .excluded => .excluded
    | .taken => if (bodyOf s.1 s.2).isSome then .included else .malformed := by
  have hext : (∃ ext ∈ filter.extensions, ext.toList <:+ s.1.name.toList) ↔ filter.isEligible s.1.name = true := by
    simp [Filter.isEligible, endsWith_iff]
  have hnotebook : ".ipynb".toList <:+ s.1.name.toList ↔ s.1.isNotebook = true := endsWith_iff.symm
  unfold fateOf Filter.verdict bodyOf
  simp only [hext, hnotebook]
  by_cases hd : s.1.isDir = true
  · simp only [hd, if_true]
  · by_cases he : filter.isEligible s.1.name = true
    · by_cases hx : filter.isExcluded s.1.relativePath = true
      · simp [hd, he, hx]
      · by_cases hn : s.1.isNotebook = true
        · cases scriptOf (decode s.2) <;> simp [hd, he, hx, hn, Except.toOption]
        · simp [hd, he, hx, hn]
    · simp [hd, he]

theorem fateOf_eq_directory (s : Sight) : fateOf filter s = .directory ↔ s.1.isDir = true := by
  rw [fateOf_eq, Filter.verdict]
  cases s.1.isDir <;> cases filter.isEligible s.1.name <;> cases filter.isExcluded s.1.relativePath <;>
    cases (bodyOf s.1 s.2).isSome <;> decide

theorem wants_iff_fateOf (s : Sight) :
    filter.wants s.1 = true ↔ fateOf filter s = .included ∨ fateOf filter s = .malformed := by
  rw [← Filter.verdict_eq_taken, fateOf_eq]
  cases filter.verdict s.1 with
  | taken => cases (bodyOf s.1 s.2).isSome <;> simp
  | _ => simp

/-- the files that the filter wants are those that are taken up -/
theorem wanted_eq_takenUp (seen : List Sight) : wanted filter seen = (takenUp filter seen).map Prod.fst := by
  unfold wanted takenUp
  rw [List.filter_map]
  congr 2
  funext s
  rw [Function.comp_apply, Bool.eq_iff_iff, wants_iff_fateOf, decide_eq_true_iff]

end

/-! ## Counting record by record -/

/-- the numbers with one more record -/
def RunStats.count (filter : Filter) (stats : RunStats) (s : Sight) : RunStats :=
  match fateOf filter s with
  | .directory => stats.directory
  | .otherExtension => stats.skipExtension
  | .excluded => stats.skipGlob
  | .malformed => stats.skipMalformed
  | .included => stats.takeIn (utf8Of (blocks (selection filter [s]))).length

section

variable {filter : Filter}

theorem tally_concat (seen : List Sight) (s : Sight) :
    tally filter (seen ++ [s]) = (tally filter seen).count filter s := by
  have hsel : selection filter (seen ++ [s]) = selection filter seen ++ selection filter [s] := List.filterMap_append
  have hnone : fateOf filter s ≠ .included → selection filter [s] = [] := by
    intro hf
    rw [fateOf_eq] at hf
    cases hv : filter.verdict s.1 with
    | taken =>
      have hb : bodyOf s.1 s.2 = none := by simpa [hv] using hf
      simp [selection, hv, hb]
    | _ => simp [selection, hv]
  have hblocks : blocks [] = "" := rfl
  unfold tally RunStats.count countOf
  simp only [hsel, blocks_append, utf8Of_append, List.length_append, List.countP_append]
  cases hf : fateOf filter s with
  | included => simp [RunStats.takeIn, hf]
  | directory => simp [RunStats.directory, hf, hnone, hblocks, utf8Of, utf8]
  | otherExtension => simp [RunStats.skipExtension, hf, hnone, hblocks, utf8Of, utf8]
  | excluded => simp [RunStats.skipGlob, hf, hnone, hblocks, utf8Of, utf8]
  | malformed => simp [RunStats.skipMalformed, hf, hnone, hblocks, utf8Of, utf8]

/-- counting from nothing, record by record, gives the tally -/
theorem foldl_count (seen : List Sight) : seen.foldl (RunStats.count filter) {} = tally filter seen := by
  induction seen using List.reverseRecOn with
  | nil => rfl
  | append_singleton seen s ih => rw [List.foldl_append, ih, List.foldl_cons, List.foldl_nil, tally_concat]

/-- every file has one of four fates -/
theorem filesSeen_eq_sum (seen : List Sight) : (tally filter seen).filesSeen =
    (tally filter seen).filesIncluded + (tally filter seen).filesSkippedExtension +
      (tally filter seen).filesSkippedGlob + (tally filter seen).filesSkippedMalformed := by
  induction seen using List.reverseRecOn with
  | nil => rfl
  | append_singleton seen s ih =>
    rw [tally_concat, RunStats.count]
    cases fateOf filter s <;>
      simp only [RunStats.directory, RunStats.skipExtension, RunStats.skipGlob, RunStats.skipMalformed,
        RunStats.takeIn] <;> omega

/-- every record is a directory or a file -/
theorem directories_add_files (seen : List Sight) :
    (tally filter seen).directoriesSeen + (tally filter seen).filesSeen = seen.length := by
  have h := List.length_eq_countP_add_countP (fun s => decide (fateOf filter s = .directory)) (l := seen)
  simpa [tally, countOf] using h.symm

theorem length_takenUp (seen : List Sight) : (takenUp filter seen).length =
    (tally filter seen).filesIncluded + (tally filter seen).filesSkippedMalformed := by
  unfold takenUp tally countOf
  rw [← List.countP_eq_length_filter]
  induction seen with
  | nil => rfl
  | cons s seen ih =>
    simp only [List.countP_cons, ih]
    cases fateOf filter s <;> simp <;> omega

end

/-! ## Counting in a run -/

section

variable {τ : Type} [Sink τ] {source : TreeSource τ} {filter : Filter} {c c₁ c₂ : source.Cursor}
  {w w₁ w₂ : World τ}

/-- a write that succeeds adds the block of a file -/
theorem Gives.held_of_written (u : Sink.Exact τ) {s : Sight} (h : Gives source filter c w s c₁ w₁)
    (hu : u.sound w.output) (hok : (writeAll (texts (selection filter [s])) w.output).1 = .ok ()) :
    u.sound w₁.output ∧ u.held w₁.output = u.held w.output ++ utf8Of (blocks (selection filter [s])) := by
  obtain ⟨output, ht⟩ : ∃ output, writeAll (texts (selection filter [s])) w.output = (.ok (), output) :=
    ⟨_, Prod.ext hok rfl⟩
  obtain ⟨hs, hh⟩ := u.write_texts hu ht
  rw [join_texts] at hh
  cases h with
  | passed hn hw =>
    rw [selection_of_not_wanted hw] at ht
    cases ht
    exact ⟨hs, hh⟩
  | read hn hw hr =>
    simp only [World.withBlock, World.request_output, World.process_output, ht]
    exact ⟨hs, hh⟩

/-- a block that is written is counted with its length -/
theorem writeBlock_ok {path body : String} {s s' : τ} {bytes : Nat} (h : writeBlock path body s = (.ok bytes, s')) :
    bytes = (utf8Of (block path body)).length := by
  unfold writeBlock at h
  split at h
  · cases h
    rw [block, utf8Of_join]
  · cases h

namespace Progress

variable {p : Progress source}

/-- storing a file that is wanted counts its fate when its block can be written -/
theorem stats_of_store {r : Record} (h : filter.wants r = true) (content : Octets) (p : Progress source)
    (hok : (p.store r content).1 = none) : (p.store r content).2.stats = p.stats.count filter (r, content) := by
  have hv : filter.verdict r = .taken := (filter.verdict_eq_taken r).2 h
  cases hb : bodyOf r content with
  | none =>
    have hfate : fateOf filter (r, content) = .malformed := by simp [fateOf_eq, hv, hb]
    simp only [store, hb, RunStats.count, hfate]
  | some body =>
    have hfate : fateOf filter (r, content) = .included := by simp [fateOf_eq, hv, hb]
    have hsel : blocks (selection filter [(r, content)]) = block r.path body := by
      rw [selection_of_wanted h, hb, blocks]
      simp
    simp only [store, hb] at hok ⊢
    rcases hw : writeBlock r.path body p.world.output with ⟨e | bytes, output⟩
    · rw [hw] at hok
      cases hok
    · simp only [RunStats.count, hfate, hsel, writeBlock_ok hw]

/-- a step that goes on counts the fate of its record -/
theorem stats_of_gives {s : Sight} (h : Gives source filter p.cursor p.world s c w)
    (hok : (p.step filter).1 = none) : (p.step filter).2.stats = p.stats.count filter s := by
  cases h with
  | @passed r _ asked hn hw =>
    have hv : filter.verdict r ≠ .taken := by
      intro hv
      rw [Filter.verdict_eq_taken, hw] at hv
      cases hv
    simp only [step, next, hn, RunStats.count, fateOf_eq]
    unfold takeRecord
    cases hc : filter.verdict r with
    | taken => exact absurd hc hv
    | _ => rfl
  | @read r c₁ _ asked asked' content hn hw hr =>
    simp only [step, next, hn, takeRecord_of_wanted hw, takeFile, read, hr, Option.map_eq_none_iff] at hok ⊢
    exact stats_of_store hw content _ hok

/-- **A run counts its walk**: a run that succeeds went through a walk that finished, and counted each of its records
once; the files taken up are noted, and the output holds their blocks besides what it held -/
theorem tally_of_run {steps : Nat} {stats : RunStats} {q : Progress source}
    (h : p.run filter steps = (some (.ok stats), q)) :
    ∃ seen c₁ w₁ c₂ w₂, GivesAll source filter p.cursor p.world seen c₁ w₁ ∧
      Ends source filter c₁ w₁ .finished c₂ w₂ ∧ stats = seen.foldl (RunStats.count filter) p.stats ∧
      q.world.processed = p.world.processed ++ wanted filter seen ∧
      ∀ u : Sink.Exact τ, u.sound p.world.output →
        u.held q.world.output = u.held p.world.output ++ utf8Of (blocks (selection filter seen)) := by
  induction steps generalizing p with
  | zero => cases h
  | succ n ih =>
    rw [run] at h
    rcases gives_or_ends source filter p.cursor p.world with ⟨s, c, w, hg⟩ | ⟨ending, c, w, he⟩
    · -- the step was given a record, and it goes on, since a refused block would end the run in a failure
      obtain ⟨hres, hc, hw⟩ := step_of_gives hg
      rcases hwrite : writeAll (texts (selection filter [s])) p.world.output with ⟨fault | ⟨⟩, output⟩
      · have hstep : (p.step filter).1 = some (.error (.io outputLabel fault)) := by rw [hres, hwrite]; rfl
        rw [show p.step filter = (some (.error (.io outputLabel fault)), (p.step filter).2) from
          Prod.ext hstep rfl] at h
        cases h
      · have hstep : (p.step filter).1 = none := by rw [hres, hwrite]; rfl
        rw [show p.step filter = (none, (p.step filter).2) from Prod.ext hstep rfl] at h
        obtain ⟨seen, c₁, w₁, c₂, w₂, hgs, hend, hstats, hproc, hheld⟩ := ih h
        rw [hc, hw] at hgs
        rw [stats_of_gives hg hstep] at hstats
        refine ⟨s :: seen, c₁, w₁, c₂, w₂, .cons hg hgs, hend, hstats, ?_, ?_⟩
        · rw [hproc, hw, hg.processed, wanted_cons filter s seen, List.append_assoc]
        · intro u hu
          obtain ⟨hs, hh⟩ := hg.held_of_written u hu (by rw [hwrite])
          rw [hheld u (by rw [hw]; exact hs), hw, hh, selection_cons filter s seen, blocks_append, utf8Of_append,
            List.append_assoc]
    · -- the step was the last, and only a walk that finished gives a result without a failure
      cases hf : ending.failure? with
      | some e =>
        obtain ⟨hres, -, -⟩ := step_of_failed hf he
        rw [show p.step filter = (some (.error e), (p.step filter).2) from Prod.ext hres rfl] at h
        cases h
      | none =>
        obtain rfl : ending = .finished := by cases ending <;> first | rfl | cases hf
        obtain ⟨hres, -, hw⟩ := step_of_finished he
        rcases hflush : Sink.flush p.world.output with ⟨fault | ⟨⟩, output⟩
        · rw [hflush] at hres
          rw [show p.step filter = (some (.error (.io outputLabel fault)), (p.step filter).2) from
            Prod.ext hres rfl] at h
          cases h
        · rw [hflush] at hres hw
          rw [show p.step filter = (some (.ok p.stats), (p.step filter).2) from Prod.ext hres rfl] at h
          cases h
          refine ⟨[], _, _, _, _, .nil, he, rfl, ?_, ?_⟩
          · rw [hw]
            exact he.processed
          · intro u hu
            have hb : utf8Of (blocks (selection filter [])) = [] := rfl
            rw [hw, hb, List.append_nil]
            exact (u.flush _ _ hu hflush).2

end Progress

/-- what a run counts that succeeds, with its walk -/
theorem tally_of_aggregate {steps : Nat} {stats : RunStats} {after : World τ}
    (h : aggregate steps source filter w = some (.ok stats, after)) :
    ∃ seen, Walk source filter w seen .finished ∧ stats = tally filter seen ∧
      after.processed = w.processed ++ (takenUp filter seen).map Prod.fst ∧
      ∀ u : Sink.Exact τ, u.sound w.output →
        u.held after.output = u.held w.output ++ utf8Of (blocks (selection filter seen)) := by
  unfold aggregate at h
  rcases hr : (Progress.start source w).run filter steps with ⟨_ | result, q⟩ <;> rw [hr] at h
  · cases h
  · cases h
    obtain ⟨seen, c₁, w₁, c₂, w₂, hg, he, hstats, hproc, hheld⟩ := Progress.tally_of_run hr
    refine ⟨seen, ⟨c₁, w₁, c₂, w₂, hg, he⟩, ?_, ?_, hheld⟩
    · rw [hstats]
      exact foldl_count seen
    · rw [← wanted_eq_takenUp]
      exact hproc

/-- over a walk that finishes, a run counts the walk and adds its blocks to an output that takes everything -/
theorem aggregate_of_finished (u : Sink.Unlimited τ) {seen : List Sight} {steps : Nat} (hu : u.accepts w.output)
    (h : Walk source filter w seen .finished) (hs : seen.length < steps) :
    ∃ after, aggregate steps source filter w = some (.ok (tally filter seen), after) ∧
      u.held after.output = u.held w.output ++ utf8Of (blocks (selection filter seen)) := by
  obtain ⟨result, after, ha, ⟨stats, rfl⟩, -, -, hh⟩ := aggregate_of_walk u hu h hs
  obtain ⟨seen', hw, rfl, -⟩ := tally_of_aggregate ha
  obtain ⟨rfl, -⟩ := h.unique hw
  exact ⟨after, ha, hh⟩

end

/-- the `aggregate` in a run that succeeds, and the artifact that the run leaves -/
theorem aggregate_of_runPipeline {steps : Nat} {source : TreeSource BufferedFile} {config : Config} {disk : Disk}
    {run : Run} {outcome : Outcome} (h : runPipeline steps source config disk = some run)
    (hok : run.result = .ok outcome) :
    ∃ filter place w after seen, Begins config disk filter place w ∧
      aggregate steps source filter w = some (.ok outcome.stats, after) ∧ Walk source filter w seen .finished ∧
      run.disk = disk.store place (utf8Of (blocks (selection filter seen))) := by
  obtain ⟨filter, place, w, seen, hb, hs, hw⟩ := walk_of_runPipeline h hok
  obtain ⟨run', hr, hdisk, -⟩ := runPipeline_of_walk hb hw hs
  obtain rfl : run' = run := Option.some_inj.1 (hr.symm.trans h)
  obtain ⟨⟨result, after⟩, ha, rfl⟩ := Option.map_eq_some_iff.1 (hb.runPipeline_eq.symm.trans h)
  cases result with
  | error e => cases hok
  | ok stats =>
    have hstats : outcome.stats = stats := by
      simp only [conclude] at hok
      split at hok
      · cases hok
      · cases hok
        rfl
    exact ⟨filter, place, w, after, seen, hb, by rw [hstats]; exact ha, hw, hdisk⟩

/-- **The counters are counts.** Whenever a run of any source into any output succeeds, it went through a walk that
finished. Every file of it is included or skipped for one reason, directories and files are all of its records, and each
counter is the number of records with its fate. The files taken up are the included and the malformed ones, in walk
order, each once. The octets counted are those that the output has gained, and in a whole run all that the artifact
holds on disk, where it is a file and not the null device. -/
theorem stats_count_records (steps : Nat) :
    (∀ (τ : Type) [Sink τ] (source : TreeSource τ) (filter : Filter) (w after : World τ) (stats : RunStats),
      aggregate steps source filter w = some (.ok stats, after) →
      ∃ seen, Walk source filter w seen .finished ∧
        stats.filesSeen = stats.filesIncluded + stats.filesSkippedExtension + stats.filesSkippedGlob +
          stats.filesSkippedMalformed ∧
        stats.directoriesSeen + stats.filesSeen = seen.length ∧
        stats.directoriesSeen = countOf filter .directory seen ∧
        stats.filesSkippedExtension = countOf filter .otherExtension seen ∧
        stats.filesSkippedGlob = countOf filter .excluded seen ∧
        stats.filesSkippedMalformed = countOf filter .malformed seen ∧
        stats.filesIncluded = countOf filter .included seen ∧
        after.processed = w.processed ++ (takenUp filter seen).map Prod.fst ∧
        (takenUp filter seen).length = stats.filesIncluded + stats.filesSkippedMalformed ∧
        ∀ u : Sink.Exact τ, u.sound w.output →
          ∃ gained, u.held after.output = u.held w.output ++ gained ∧ gained.length = stats.bytesWritten) ∧
    (∀ (source : TreeSource BufferedFile) (config : Config) (disk : Disk) (run : Run) (outcome : Outcome),
      runPipeline steps source config disk = some run → run.result = .ok outcome →
      ∃ filter place w after, Begins config disk filter place w ∧
        aggregate steps source filter w = some (.ok outcome.stats, after) ∧
        (disk.FilePlace place → ∃ artifact, run.disk.read config.outputPath = .ok artifact ∧
          artifact.length = outcome.stats.bytesWritten)) := by
  constructor
  · intro τ _ source filter w after stats h
    obtain ⟨seen, hw, rfl, hproc, hheld⟩ := tally_of_aggregate h
    refine ⟨seen, hw, filesSeen_eq_sum seen, directories_add_files seen, rfl, rfl, rfl, rfl, rfl, hproc,
      length_takenUp seen, ?_⟩
    intro u hu
    exact ⟨_, hheld u hu, rfl⟩
  · intro source config disk run outcome h hok
    obtain ⟨filter, place, w, after, seen, hb, ha, hw, hdisk⟩ := aggregate_of_runPipeline h hok
    obtain ⟨seen', hw', hstats, -⟩ := tally_of_aggregate ha
    obtain ⟨rfl, -⟩ := hw.unique hw'
    refine ⟨filter, place, w, after, hb, ha, fun hfile => ⟨utf8Of (blocks (selection filter seen')), ?_, ?_⟩⟩
    · rw [hdisk, hb.read, Disk.kept_of_filePlace hfile]
    · rw [hstats]
      rfl

/-! The small tree into memory, and into a file. -/

theorem smallTree_counts :
    (∃ stats after, aggregate 4 (smallTree LimitedSink) pythonFilter { output := .unlimited } =
        some (.ok stats, after) ∧
      stats.directoriesSeen = 1 ∧ stats.filesSkippedExtension = 1 ∧ stats.filesSeen = 2 ∧
      after.processed = [pythonRecord] ∧ after.output.held.length = stats.bytesWritten) ∧
    ∃ run outcome artifact,
      runPipeline 4 (smallTree BufferedFile) { Config.standard with outputPath := "out" } .empty = some run ∧
      run.result = .ok outcome ∧ run.disk.read "out" = .ok artifact ∧ artifact.length = outcome.stats.bytesWritten := by
  obtain ⟨hmem, hdisk⟩ := stats_count_records 4
  constructor
  · obtain ⟨result, after, hr, ⟨stats, rfl⟩, -⟩ := aggregate_of_walk LimitedSink.takesAll
      (w := { output := .unlimited }) ⟨rfl, rfl⟩ (smallTree_walk _) (show 3 < 4 by decide)
    obtain ⟨seen, hw, hsum, hall, hdirs, hext, -, -, -, hproc, -, hbytes⟩ := hmem _ _ _ _ _ _ hr
    obtain ⟨rfl, -⟩ := (smallTree_walk _).unique hw
    obtain ⟨gained, hheld, hlen⟩ := hbytes LimitedSink.exact trivial
    have hd : countOf pythonFilter .directory smallSeen = 1 := by decide
    have he : countOf pythonFilter .otherExtension smallSeen = 1 := by decide
    have hfiles : stats.filesSeen = 2 := by
      rw [hd] at hdirs
      have hlen : smallSeen.length = 3 := rfl
      omega
    refine ⟨stats, after, hr, hdirs.trans hd, hext.trans he, hfiles, hproc.trans (by decide), ?_⟩
    rw [← hlen]
    exact congrArg List.length hheld
  · have hb : Begins { Config.standard with outputPath := "out" } .empty pythonFilter ["out"]
        { output := ⟨Disk.empty.put ["out"] (.file []), ["out"], []⟩ } := ⟨rfl, _, rfl, rfl⟩
    obtain ⟨run, hr, -, -, outcome, hok, -⟩ := runPipeline_of_walk hb (smallTree_walk _) (show 3 < 4 by decide)
    obtain ⟨_, _, _, _, hb', -, hartifact⟩ := hdisk _ _ _ _ _ hr hok
    obtain ⟨rfl, rfl, rfl⟩ := hb.unique hb'
    obtain ⟨artifact, hread, hlen⟩ := hartifact (Disk.filePlace_top (.inl rfl))
    exact ⟨run, outcome, artifact, hr, hok, hread, hlen⟩

end ImportHarvest

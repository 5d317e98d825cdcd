import ImportHarvest.Proofs.Growth
import ImportHarvest.Proofs.Rerun
/-!
A run over the directory that its artifact lies in.

The artifact is made, or emptied, before the walk starts, so a walk may meet it. A file that is read holds what it held
before the run, unless it is the artifact, which holds a start of what was written until then (`contents_of_givesAll`);
and but for the artifact the walk is the one that the directory had before. So an artifact in a file is that of the
directory as it was before the run exactly as far as no file that is wanted leads to it (`artifact_of_directory`).
-/

namespace ImportHarvest

open Text

/-! ## What is read -/

namespace LocalTree

theorem forall_records_append {P : Record → Prop} {a b : Listing} (ha : ∀ r ∈ a.records, P r)
    (hb : ∀ r ∈ b.records, P r) : ∀ r ∈ (a ++ b).records, P r := by
  change ∀ r ∈ (Listing.append a b).records, P r
  unfold Listing.append
  split
  · exact ha
  · intro r hr
    rcases List.mem_append.1 hr with hr | hr
    · exact ha r hr
    · exact hb r hr

theorem content_of_walkChildren {d : Disk} {followLinks : Bool} {budget : Nat} {p : Position}
    {cs : List (String × Node)} : ∀ r ∈ (walkChildren d followLinks budget p cs).records, r.content = .path r.path := by
  have hone : ∀ (p : Position) (name : String) (isDir : Bool), ∀ r ∈ (Listing.single (p.record name isDir)).records,
      r.content = .path r.path := by
    rintro p name isDir r hr
    obtain rfl := List.mem_singleton.1 hr
    rfl
  fun_induction walkChildren d followLinks budget p cs with
  | case2 budget p name content rest ih => exact forall_records_append (hone _ _ _) ih
  | case3 budget p name kind rest ih => exact ih
  | case4 budget p name children rest ihc ihr =>
    refine forall_records_append (forall_records_append (hone _ _ _) ?_) ihr
    split
    · simp [Position.failure, Listing.fail]
    · exact ihc
  | case5 budget p name target rest place content left hl ih => exact forall_records_append (hone _ _ _) ih
  | case6 budget p name target rest place children left hl hfollow ih => exact ih
  | case8 budget p name target rest place children left hl hfollow hloop hlt ihc ihr =>
    exact forall_records_append (forall_records_append (hone _ _ _) ihc) ihr
  | case9 budget p name target rest f hfile hdirectory hl ih => exact ih
  | case11 budget p name target rest fault hl hfollow ih => exact ih
  | _ => simp [Listing.nil, Position.failure, Listing.fail]

/-- a record of a walk is read under the path that it shows -/
theorem content_of_walk (t : LocalTree) (d : Disk) : ∀ r ∈ (t.walk d).records, r.content = .path r.path := by
  unfold walk
  split
  · simp [Listing.fail]
  · exact content_of_walkChildren
  · simp [Listing.nil]

theorem read_of_content {d : Disk} {r : Record} (h : r.content = .path r.path) {content : Octets} :
    read d r = .ok content ↔ d.read r.path = .ok content := by
  rw [read, h]
  dsimp only
  cases d.read r.path with
  | error fault => exact ⟨nofun, nofun⟩
  | ok found => exact ⟨fun hf => by cases hf; rfl, fun hf => by cases hf; rfl⟩

end LocalTree

section

variable {t : LocalTree} {filter : Filter} {disk : Disk} {place : Place} {w w₁ : World BufferedFile}
  {c c₁ : t.source.Cursor}

/-- a file that is read holds what it held before the run, unless it is the artifact, which holds a start of what was
written -/
theorem content_of_gives (hp : disk.FilePlace place) (hon : w.output.On disk place) {r : Record} {content : Octets}
    (h : Gives t.source filter c w (r, content) c₁ w₁) (hw : filter.wants r = true) (hr : r.content = .path r.path) :
    (¬ (disk.put place (.file [])).Leads r.path place → LocalTree.read disk r = .ok content) ∧
      ((disk.put place (.file [])).Leads r.path place → content <+: w.output.held) := by
  have hread : LocalTree.read w.output.disk r = .ok content := by
    cases h with
    | passed _ hw' => rw [hw] at hw'; cases hw'
    | read _ _ hread => exact congrArg Prod.fst hread
  obtain ⟨now, pending, hout⟩ := hon
  rw [LocalTree.read_of_content hr] at hread
  rw [hout] at hread ⊢
  constructor
  · intro hl
    rw [LocalTree.read_of_content hr]
    exact Disk.read_of_changed (hp.changed now) hread fun hl' => hl (hl'.of_put hp [])
  · intro hl
    obtain rfl : content = now := Disk.read_of_leads hp hread (hl.of_put hp now)
    rw [BufferedFile.held, BufferedFile.contentAt_put hp]
    exact List.prefix_append _ _

/-- what a run reads, file by file -/
theorem contents_of_givesAll (hp : disk.FilePlace place) (hon : w.output.On disk place) {seen : List Sight}
    (h : GivesAll t.source filter c w seen c₁ w₁) (hr : ∀ s ∈ seen, s.1.content = .path s.1.path)
    {before after : List Sight} {r : Record} {content : Octets} (hs : seen = before ++ (r, content) :: after)
    (hw : filter.wants r = true) :
    (¬ (disk.put place (.file [])).Leads r.path place → LocalTree.read disk r = .ok content) ∧
      ((disk.put place (.file [])).Leads r.path place →
        content <+: w.output.held ++ utf8Of (blocks (selection filter before))) := by
  induction h generalizing before with
  | nil => simp at hs
  | @cons _ _ _ w next _ s seen hg _ ih =>
    have hu := hg.held (BufferedFile.takesAll hp).toTaking hon
    cases before with
    | nil =>
      obtain ⟨rfl, rfl⟩ := List.cons.inj hs
      obtain ⟨hold, hnew⟩ := content_of_gives hp hon hg hw (hr _ (List.mem_cons_self ..))
      refine ⟨hold, fun hl => (hnew hl).trans ?_⟩
      exact List.prefix_append _ _
    | cons first before =>
      obtain ⟨rfl, rfl⟩ := List.cons.inj hs
      obtain ⟨hold, hnew⟩ := ih hu.1 (fun s hm => hr s (List.mem_cons_of_mem _ hm)) rfl
      refine ⟨hold, fun hl => ?_⟩
      have hheld : next.output.held = w.output.held ++ utf8Of (blocks (selection filter [s])) := hu.2
      have hblocks : next.output.held ++ utf8Of (blocks (selection filter before)) =
          w.output.held ++ utf8Of (blocks (selection filter (s :: before))) := by
        rw [selection_cons filter s, blocks_append, utf8Of_append, hheld, List.append_assoc]
      rw [← hblocks]
      exact hnew hl

/-- a file that is extra is not wanted, so it makes no difference to what is selected -/
theorem selection_of_interspersed {extra : Record → Prop} {records more : List Record}
    (h : Interspersed extra records more) (hextra : ∀ r ∈ more, extra r → filter.wants r = false) {seen : List Sight}
    (hs : seen.map Prod.fst = more) :
    ∃ known : List Sight, known.map Prod.fst = records ∧ known ⊆ seen ∧
      selection filter known = selection filter seen := by
  induction h generalizing seen with
  | nil =>
    obtain rfl : seen = [] := List.map_eq_nil_iff.1 hs
    exact ⟨[], rfl, List.Subset.refl _, rfl⟩
  | both _ ih =>
    obtain ⟨s, seen, rfl, rfl, hmore⟩ := List.map_eq_cons_iff.1 hs
    obtain ⟨known, hk, hsub, hsel⟩ := ih (fun r hm => hextra r (List.mem_cons_of_mem _ hm)) hmore
    refine ⟨s :: known, by rw [List.map_cons, hk], List.cons_subset_cons s hsub, ?_⟩
    rw [selection_cons, selection_cons filter s seen, hsel]
  | extra hr _ ih =>
    obtain ⟨s, seen, rfl, rfl, hmore⟩ := List.map_eq_cons_iff.1 hs
    obtain ⟨known, hk, hsub, hsel⟩ := ih (fun r hm => hextra r (List.mem_cons_of_mem _ hm)) hmore
    refine ⟨known, hk, fun x hx => List.mem_cons_of_mem _ (hsub hx), ?_⟩
    rw [selection_cons filter s seen, hsel,
      selection_of_not_wanted (hextra s.1 (List.mem_cons_self ..) hr) s.2, List.nil_append]

end

/-! ## Runs -/

/-- **A run takes its artifact for one of the files as soon as a wanted file leads to it.** When a run over a directory
succeeds and its artifact is a file, which may be new, the artifact is that of the directory as it stands once the
artifact is made or emptied, in walk order, where every file that is taken has the content it had before the run, but for
those that lead to the artifact, which have a start of what was written before them. So where none of the wanted files
leads to the artifact, it is the artifact of the directory as it stood before the run, with the contents of then. -/
theorem artifact_of_directory (t : LocalTree) (config : Config) (disk : Disk) (steps : Nat) (run : Run)
    (outcome : Outcome) (h : runPipeline steps t.source config disk = some run) (hok : run.result = .ok outcome) :
    ∃ filter place after, Filter.make config.allowedExtensions config.excludeGlobs = .ok filter ∧
      disk.create config.outputPath = .ok (place, after) ∧
      (disk.FilePlace place → ∃ text, run.disk.read config.outputPath = .ok (utf8Of text) ∧
        (∃ seen, t.walk after = ⟨seen.map Prod.fst, none⟩ ∧ Artifact filter seen text ∧
          ∀ (earlier later : List Sight) (r : Record) (content : Octets), seen = earlier ++ (r, content) :: later →
            filter.wants r = true →
            (¬ after.Leads r.path place → LocalTree.read disk r = .ok content) ∧
              (after.Leads r.path place → content <+: utf8Of (blocks (selection filter earlier)))) ∧
        (disk.Proper → (t.walk disk).failure = none →
          (∀ r ∈ (t.walk after).records, filter.wants r = true → ¬ after.Leads r.path place) →
          ∃ known : List Sight, known.map Prod.fst = (t.walk disk).records ∧ Artifact filter known text ∧
            ∀ s ∈ known, filter.wants s.1 = true → LocalTree.read disk s.1 = .ok s.2)) := by
  obtain ⟨filter, place, w, seen, hb, hs, hw⟩ := walk_of_runPipeline h hok
  obtain ⟨run', hr, hdisk, -⟩ := runPipeline_of_walk hb hw hs
  obtain rfl : run' = run := Option.some_inj.1 (hr.symm.trans h)
  obtain ⟨after, hcreate, hstart⟩ := hb.created
  refine ⟨filter, place, after, hb.globs, hcreate, fun hp => ?_⟩
  obtain ⟨hon, hheld⟩ := hb.on hp
  obtain rfl : after = disk.put place (.file []) := by
    rw [(Disk.read_of_create hcreate).2.1, Disk.store_of_filePlace hp]
  subst hstart
  have hitems : (t.walk (disk.put place (.file []))).items = (seen.map Prod.fst).map .ok := by
    rw [List.map_map]
    exact hw.items_of_finished
  obtain ⟨hrecords, hnone⟩ := Listing.of_items hitems
  have hcontent : ∀ s ∈ seen, s.1.content = .path s.1.path := by
    intro s hm
    refine LocalTree.content_of_walk t (disk.put place (.file [])) s.1 ?_
    rw [hrecords]
    exact List.mem_map_of_mem hm
  have hreads : ∀ (earlier later : List Sight) (r : Record) (content : Octets),
      seen = earlier ++ (r, content) :: later → filter.wants r = true →
      (¬ (disk.put place (.file [])).Leads r.path place → LocalTree.read disk r = .ok content) ∧
        ((disk.put place (.file [])).Leads r.path place →
          content <+: utf8Of (blocks (selection filter earlier))) := by
    intro earlier later r content hsplit hwants
    obtain ⟨c₁, w₁, c₂, w₂, hg, -⟩ := hw
    have hc := contents_of_givesAll hp hon hg hcontent hsplit hwants
    rw [hheld, List.nil_append] at hc
    exact hc
  refine ⟨blocks (selection filter seen), ?_, ⟨seen, ?_, artifact_iff.2 rfl, hreads⟩, ?_⟩
  · rw [hdisk, hb.read, Disk.kept_of_filePlace hp]
  · rw [← hrecords, ← hnone]
  · intro hproper hbefore helse
    obtain ⟨-, hgrows⟩ := LocalTree.walk_of_changed t (hp.changed []) (hproper.create hcreate) hbefore
    have hextra : ∀ r ∈ (t.walk (disk.put place (.file []))).records,
        (disk.put place (.file [])).Leads r.path place → filter.wants r = false := by
      intro r hm hl
      cases hwants : filter.wants r with
      | false => rfl
      | true => exact absurd hl (helse r hm hwants)
    obtain ⟨known, hk, hsub, hsel⟩ := selection_of_interspersed hgrows hextra hrecords.symm
    refine ⟨known, hk, artifact_iff.2 (by rw [hsel]), ?_⟩
    rintro ⟨r, content⟩ hm hwants
    obtain ⟨earlier, later, hsplit⟩ := List.append_of_mem (hsub hm)
    have hr : r ∈ (t.walk (disk.put place (.file []))).records := by
      rw [hrecords]
      exact List.mem_map_of_mem (hsub hm)
    exact (hreads earlier later r content hsplit hwants).1 (helse r hr hwants)

/-! The tool directory again: with the standard settings its artifact lies in it and is not wanted, and with text files
wanted too it is one of them. -/

def toolRecord : Record := ⟨"./a.py", "a.py", "a.py", false, .path "./a.py"⟩

def outputRecord : Record :=
  ⟨"./concatenated_files.txt", "concatenated_files.txt", "concatenated_files.txt", false,
    .path "./concatenated_files.txt"⟩

def outputPlace : Place := ["concatenated_files.txt"]

def toolWorld : World BufferedFile := { output := ⟨toolDisk.put outputPlace (.file []), outputPlace, []⟩ }

theorem toolDisk_walk : LocalTree.walk ⟨".", false⟩ toolDisk = ⟨[toolRecord], none⟩ := by
  have hroot : toolDisk.resolve true "." = .ok ⟨[], toolDisk.top, Disk.maxLinks⟩ := rfl
  rw [LocalTree.walk, hroot]
  simp only [Disk.top, toolDisk, LocalTree.walkChildren]
  rfl

theorem toolWorld_walk :
    LocalTree.walk ⟨".", false⟩ toolWorld.output.disk = ⟨[toolRecord, outputRecord], none⟩ := by
  have hdisk : toolWorld.output.disk =
      { entries := [("a.py", .file (utf8Of "import os\n")), ("concatenated_files.txt", .file [])] } := rfl
  have hroot : toolWorld.output.disk.resolve true "." = .ok ⟨[], toolWorld.output.disk.top, Disk.maxLinks⟩ := rfl
  rw [LocalTree.walk, hroot, hdisk]
  simp only [Disk.top, LocalTree.walkChildren]
  rfl

theorem toolWorld_start : (LocalTree.source ⟨".", false⟩).start toolWorld = [.ok toolRecord, .ok outputRecord] := by
  change (LocalTree.walk ⟨".", false⟩ toolWorld.output.disk).items = _
  rw [toolWorld_walk]
  rfl

theorem toolDisk_filePlace : toolDisk.FilePlace outputPlace := Disk.filePlace_top (.inl rfl)

theorem toolDisk_proper : toolDisk.Proper :=
  .cons ⟨by decide, by decide, by decide, by decide, by decide⟩ (by decide) (by simp) .nil

/-- with the standard settings -/
theorem toolDisk_own_files : ∃ run outcome, runPipeline 3 (LocalTree.source ⟨".", false⟩) .standard toolDisk = some run ∧
    run.result = .ok outcome ∧ ∃ text, run.disk.read "concatenated_files.txt" = .ok (utf8Of text) ∧
      Artifact pythonFilter [(toolRecord, utf8Of "import os\n")] text := by
  have hb : Begins .standard toolDisk pythonFilter outputPlace toolWorld := ⟨rfl, _, rfl, rfl⟩
  have hw : Walk (LocalTree.source ⟨".", false⟩) pythonFilter toolWorld
      [(toolRecord, utf8Of "import os\n"), (outputRecord, [])] .finished := by
    unfold Walk
    rw [toolWorld_start]
    exact ⟨_, _, _, _, .cons (.read rfl (by decide) rfl) (.cons (.passed rfl (by decide)) .nil), .finished rfl⟩
  obtain ⟨run, hr, -, -, outcome, hok, -⟩ := runPipeline_of_walk hb hw (show 2 < 3 by decide)
  obtain ⟨filter, place, after, hmake, hcreate, hfile⟩ :=
    artifact_of_directory ⟨".", false⟩ .standard toolDisk 3 run outcome hr hok
  obtain rfl : pythonFilter = filter := Except.ok.inj hmake
  have hcreated : toolDisk.create Config.standard.outputPath = .ok (outputPlace, toolWorld.output.disk) := rfl
  obtain ⟨rfl, rfl⟩ := Prod.mk.inj (Except.ok.inj (hcreated.symm.trans hcreate))
  obtain ⟨text, hread, -, hknown⟩ := hfile toolDisk_filePlace
  refine ⟨run, outcome, hr, hok, text, hread, ?_⟩
  have helse : ∀ r ∈ (LocalTree.walk ⟨".", false⟩ toolWorld.output.disk).records, pythonFilter.wants r = true →
      ¬ toolWorld.output.disk.Leads r.path outputPlace := by
    rw [toolWorld_walk]
    rintro r hm hwants ⟨n, left, hl⟩
    simp only [List.mem_cons, List.not_mem_nil, or_false] at hm
    rcases hm with rfl | rfl
    · have hl' : toolWorld.output.disk.follow true Disk.maxLinks (toolWorld.output.disk.start toolRecord.path)
          (Disk.steps toolRecord.path) = .ok ⟨["a.py"], .file (utf8Of "import os\n"), Disk.maxLinks⟩ := rfl
      rw [hl'] at hl
      simp [outputPlace] at hl
    · exact absurd hwants (by decide)
  obtain ⟨known, hrecords, hartifact, hreads⟩ := hknown toolDisk_proper (by rw [toolDisk_walk]) helse
  rw [toolDisk_walk] at hrecords
  obtain ⟨⟨r, content⟩, rest, rfl, rfl, hrest⟩ := List.map_eq_cons_iff.1 hrecords
  obtain rfl : rest = [] := List.map_eq_nil_iff.1 hrest
  have hcontent : LocalTree.read toolDisk toolRecord = .ok content :=
    hreads _ (List.mem_singleton_self _) (show pythonFilter.wants toolRecord = true by decide)
  obtain rfl : utf8Of "import os\n" = content := Except.ok.inj hcontent
  exact hartifact

/-- with text files wanted too, the artifact is not that of the directory as it stood before -/
theorem toolDisk_takes_artifact :
    LocalTree.walk ⟨".", false⟩ toolDisk = ⟨[toolRecord], none⟩ ∧
      LocalTree.read toolDisk toolRecord = .ok (utf8Of "import os\n") ∧
      ∃ filter run outcome artifact,
        Filter.make textConfig.allowedExtensions textConfig.excludeGlobs = .ok filter ∧
        runPipeline 3 (LocalTree.source ⟨".", false⟩) textConfig toolDisk = some run ∧ run.result = .ok outcome ∧
        run.disk.read textConfig.outputPath = .ok artifact ∧ run.processed = [toolRecord, outputRecord] ∧
        ∀ text, Artifact filter [(toolRecord, utf8Of "import os\n")] text → artifact ≠ utf8Of text := by
  let filter : Filter := ⟨[".py", ".txt"], []⟩
  have hb : Begins textConfig toolDisk filter outputPlace toolWorld := ⟨rfl, _, rfl, rfl⟩
  have htool : filter.wants toolRecord = true := by decide
  have hwanted : filter.wants outputRecord = true := by decide
  -- the artifact is read while it is written, and whatever has reached it by then, its name is in its block
  obtain ⟨now, hw⟩ : ∃ now, Walk (LocalTree.source ⟨".", false⟩) filter toolWorld
      [(toolRecord, utf8Of "import os\n"), (outputRecord, now)] .finished := by
    unfold Walk
    rw [toolWorld_start]
    obtain ⟨w₁, hfirst⟩ : ∃ w₁, Gives (LocalTree.source ⟨".", false⟩) filter [.ok toolRecord, .ok outputRecord] toolWorld
        (toolRecord, utf8Of "import os\n") [.ok outputRecord] w₁ := ⟨_, .read rfl htool rfl⟩
    obtain ⟨⟨now, pending, hout⟩, -⟩ :=
      hfirst.held (BufferedFile.takesAll toolDisk_filePlace).toTaking (hb.on toolDisk_filePlace).1
    have hread : (LocalTree.source ⟨".", false⟩).read outputRecord [] ((w₁.request []).process outputRecord) =
        (.ok now, [], []) := by
      change (LocalTree.read w₁.output.disk outputRecord, _) = _
      rw [hout]
      rfl
    exact ⟨now, _, _, _, _, .cons hfirst (.cons (.read rfl hwanted hread) .nil), .finished rfl⟩
  obtain ⟨run, hr, hdisk, hproc, outcome, hok, -⟩ := runPipeline_of_walk hb hw (show 2 < 3 by decide)
  have hprocessed : run.processed = [toolRecord, outputRecord] := by
    rw [hproc]
    simp [wanted, htool, hwanted, Ending.unread]
  refine ⟨toolDisk_walk, rfl, filter, run, outcome, _, hb.globs, hr, hok, by rw [hdisk]; exact hb.read _, hprocessed, ?_⟩
  rw [Disk.kept_of_filePlace toolDisk_filePlace]
  intro text htext he
  have hbody : bodyOf outputRecord now = some (decode now) := rfl
  have hheader : (utf8Of "# ---\n# Filename: ").length = 18 := by decide
  rw [artifact_iff.1 htext, selection_cons, selection_of_wanted hwanted, hbody, Option.map_some, Option.toList_some,
    blocks_append, blocks_cons] at he
  have hlength := congrArg List.length he
  simp only [utf8Of_append, List.length_append, hheader] at hlength
  omega

end ImportHarvest

import ImportHarvest.Proofs.Order
/-!
What the paths of files import.

The path of a file stands in the header of its block as it is. Its first line is a comment there, but a line feed in it
ends the comment, and what follows is a line of the artifact like any other. So the modules of a run are those of the
texts of its files and of the later lines of their paths (`modules_of_paths`), and they come from the files alone
exactly as far as these lines import nothing new.
-/

namespace ImportHarvest

open Text

/-! ## Blocks -/

section

variable {selected : List (Record × String)}

/-- a module of an artifact comes from the path or the text of one of its files -/
theorem mem_harvest_blocks {name : String} :
    name ∈ (harvest (decode (utf8Of (blocks selected)))).toList ↔
      ∃ f ∈ selected, name ∈ (pathImports f.1.path).map String.ofList ∨ name ∈ (harvest f.2).toList := by
  rw [toList_harvest_blocks, List.mem_eraseDups, List.map_flatMap, List.mem_flatMap]
  simp only [List.map_append, List.mem_append, toList_harvest, List.mem_eraseDups]

/-- a block imports what its path does, then what its text does -/
theorem scanImports_one_block (path body : String) :
    scanImports true (block path body).toList = pathImports path ++ scanImports true body.toList := by
  have h := scanImports_blocks [(⟨path, path, path, false, .path path⟩, body)]
  have hb : blocks [((⟨path, path, path, false, .path path⟩ : Record), body)] = block path body := by
    rw [blocks, List.map_cons, List.map_nil, String.join_cons, String.join_nil, String.append_empty]
  rwa [hb, List.flatMap_cons, List.flatMap_nil, List.append_nil] at h

/-- a block has the modules of its text when what its path imports is among them -/
theorem block_imports_body_iff (path body : String) :
    (∀ name, name ∈ (harvest (block path body)).toList ↔ name ∈ (harvest body).toList) ↔
      ∀ name ∈ (pathImports path).map String.ofList, name ∈ (harvest body).toList := by
  simp only [toList_harvest, scanImports_one_block, List.mem_eraseDups, List.map_append, List.mem_append]
  constructor
  · intro h name hname
    exact (h name).1 (.inl hname)
  · intro h name
    exact ⟨fun hname => hname.elim (h name) id, .inr⟩

/-- all modules of an artifact come from the texts of its files when what the paths import does -/
theorem modules_in_bodies_iff :
    (∀ name ∈ (harvest (decode (utf8Of (blocks selected)))).toList, ∃ f ∈ selected, name ∈ (harvest f.2).toList) ↔
      ∀ f ∈ selected, ∀ name ∈ (pathImports f.1.path).map String.ofList,
        ∃ g ∈ selected, name ∈ (harvest g.2).toList := by
  constructor
  · intro h f hf name hname
    exact h name (mem_harvest_blocks.2 ⟨f, hf, .inl hname⟩)
  · intro h name hname
    obtain ⟨f, hf, hpath | hbody⟩ := mem_harvest_blocks.1 hname
    · exact h f hf name hpath
    · exact ⟨f, hf, hbody⟩

end

/-! ## Runs -/

/-- **The path of a file imports what its later lines do.** A run that succeeds went through a walk that finished; its
modules are, where the artifact is a file and not the null device, file by file in walk order and each where it was first
seen, the names that the lines of the path import, but for the first line, and those of the text. So a block has the
modules of its text exactly when the path adds none, and all modules of the command come from texts of files exactly when
those of the paths do. -/
theorem modules_of_paths (steps : Nat) (source : TreeSource BufferedFile) (config : Config) (disk : Disk) (run : Run)
    (outcome : Outcome) (h : runPipeline steps source config disk = some run) (hok : run.result = .ok outcome) :
    ∃ filter place w seen, Begins config disk filter place w ∧ Walk source filter w seen .finished ∧
      (disk.FilePlace place → outcome.modules.toList = ((selection filter seen).flatMap fun f =>
        (pathImports f.1.path).map String.ofList ++ (scanImports true f.2.toList).map String.ofList).eraseDups) ∧
      (∀ f ∈ selection filter seen,
        (∀ name, name ∈ (harvest (block f.1.path f.2)).toList ↔ name ∈ (harvest f.2).toList) ↔
          ∀ name ∈ (pathImports f.1.path).map String.ofList, name ∈ (harvest f.2).toList) ∧
      (disk.FilePlace place →
        ((∀ name ∈ outcome.modules.toList, ∃ f ∈ selection filter seen, name ∈ (harvest f.2).toList) ↔
          ∀ f ∈ selection filter seen, ∀ name ∈ (pathImports f.1.path).map String.ofList,
            ∃ g ∈ selection filter seen, name ∈ (harvest g.2).toList)) := by
  obtain ⟨filter, place, w, seen, hb, hs, hw⟩ := walk_of_runPipeline h hok
  obtain ⟨run', hr, -, -, outcome', hres, hm, -⟩ := runPipeline_of_walk hb hw hs
  obtain rfl : run' = run := Option.some_inj.1 (hr.symm.trans h)
  obtain rfl : outcome' = outcome := Except.ok.inj (hres.symm.trans hok)
  refine ⟨filter, place, w, seen, hb, hw, fun hfile => ?_, fun f _ => block_imports_body_iff f.1.path f.2, fun hfile => ?_⟩
  · rw [hm, Disk.kept_of_filePlace hfile, toList_harvest_blocks, List.map_flatMap]
    simp only [List.map_append]
  · rw [hm, Disk.kept_of_filePlace hfile]
    exact modules_in_bodies_iff

/-! A line feed in a path: in a tree of two files that import the same, and in the name of the only file of a
directory. -/

theorem recordsTree_imports_path : ∃ run outcome,
    runPipeline 4 (recordsTree (forwardSeen.map Prod.fst) BufferedFile) { Config.standard with outputPath := "out" }
      .empty = some run ∧ run.result = .ok outcome ∧ outcome.modules.toList = ["os", "sys"] := by
  have hb : Begins { Config.standard with outputPath := "out" } .empty pythonFilter ["out"]
      { output := ⟨Disk.empty.put ["out"] (.file []), ["out"], []⟩ } := ⟨rfl, _, rfl, rfl⟩
  obtain ⟨run, hr, -, -, outcome, hok, -⟩ := runPipeline_of_walk hb (recordsTree_walk _).1 (show 3 < 4 by decide)
  obtain ⟨filter, place, w, seen, hb', hw', hm, -⟩ := modules_of_paths _ _ _ _ _ _ hr hok
  obtain ⟨rfl, rfl, rfl⟩ := hb.unique hb'
  obtain ⟨rfl, -⟩ := (recordsTree_walk _).1.unique hw'
  refine ⟨run, outcome, hr, hok, ?_⟩
  have hbody : ∀ r : Record, r.isNotebook = false → bodyOf r (utf8Of "import os") = some "import os" := by
    intro r hr
    rw [bodyOf, hr, if_neg (by decide), decode_utf8Of (by decide)]
  have hsel : selection pythonFilter forwardSeen =
      [(pythonRecord, "import os"), (brokenNameRecord, "import os")] := by
    rw [forwardSeen, selection_cons, selection_cons _ (pythonRecord, _), selection_of_not_wanted (by decide),
      selection_of_wanted (by decide), selection_of_wanted (by decide), hbody _ rfl, hbody _ rfl]
    rfl
  rw [hm (Disk.filePlace_top (.inl rfl)), hsel]
  simp only [List.flatMap_cons, List.flatMap_nil, scanImports_eq_lines]
  decide

/-- a directory with one file, whose name has a line feed in it -/
def feedDisk : Disk := { entries := [("src", .directory [("a\nimport sys.py", .file (utf8Of "import os\n"))])] }

def feedTree : LocalTree := ⟨"src", false⟩

def feedRecord : Record :=
  ⟨"src/a\nimport sys.py", "a\nimport sys.py", "a\nimport sys.py", false, .path "src/a\nimport sys.py"⟩

def feedPlace : Place := ["concatenated_files.txt"]

def feedWorld : World BufferedFile := { output := ⟨feedDisk.put feedPlace (.file []), feedPlace, []⟩ }

theorem feedWorld_walk : LocalTree.walk feedTree feedWorld.output.disk = ⟨[feedRecord], none⟩ := by
  have hdisk : feedWorld.output.disk = { entries := [
    ("src", .directory [("a\nimport sys.py", .file (utf8Of "import os\n"))]),
    ("concatenated_files.txt", .file [])] } := rfl
  have hroot : feedWorld.output.disk.resolve true "src" =
      .ok ⟨["src"], .directory [("a\nimport sys.py", .file (utf8Of "import os\n"))], Disk.maxLinks⟩ := rfl
  rw [LocalTree.walk, feedTree, hroot, hdisk]
  simp only [LocalTree.walkChildren]
  rfl

/-- the command installs what the name of a file imports -/
theorem feedDisk_imports_name : ∃ run outcome,
    runPipeline 2 feedTree.source .standard feedDisk = some run ∧ run.result = .ok outcome ∧
      run.processed = [feedRecord] ∧ LocalTree.read feedDisk feedRecord = .ok (utf8Of "import os\n") ∧
      (harvest (decode (utf8Of "import os\n"))).toList = ["os"] ∧
      outcome.modules.toList = ["sys", "os"] ∧ outcome.command = "pip install sys os" := by
  have hb : Begins .standard feedDisk pythonFilter feedPlace feedWorld := ⟨rfl, _, rfl, rfl⟩
  have hw : Walk feedTree.source pythonFilter feedWorld [(feedRecord, utf8Of "import os\n")] .finished := by
    have hstart : feedTree.source.start feedWorld = [.ok feedRecord] := by
      change (LocalTree.walk feedTree feedWorld.output.disk).items = _
      rw [feedWorld_walk]
      rfl
    unfold Walk
    rw [hstart]
    exact ⟨_, _, _, _, .cons (.read rfl (by decide) rfl) .nil, .finished rfl⟩
  obtain ⟨run, hr, -, hproc, outcome, hok, hm, hc⟩ := runPipeline_of_walk hb hw (show 1 < 2 by decide)
  have hbody : decode (utf8Of "import os\n") = "import os\n" := decode_utf8Of (by decide)
  have hsel : selection pythonFilter [(feedRecord, utf8Of "import os\n")] = [(feedRecord, "import os\n")] := by
    rw [selection_of_wanted (by decide), bodyOf, if_neg (by decide), hbody]
    rfl
  have hfile : feedDisk.FilePlace feedPlace := Disk.filePlace_top (.inl rfl)
  have hmodules : outcome.modules.toList = ["sys", "os"] := by
    rw [hm, Disk.kept_of_filePlace hfile, hsel, toList_harvest_blocks,
      List.flatMap_cons, List.flatMap_nil, scanImports_eq_lines]
    decide
  refine ⟨run, outcome, hr, hok, by rw [hproc]; rfl, rfl, ?_, hmodules, ?_⟩
  · rw [hbody, toList_harvest, scanImports_eq_lines]
    decide
  · rw [hc, installCommand, hmodules]
    decide

end ImportHarvest

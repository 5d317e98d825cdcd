import ImportHarvest.Proofs.Imports
import ImportHarvest.Proofs.Pipeline
import ImportHarvest.Proofs.Utf8
/-!
The modules that a run finds are those of its files.

A run looks for imports in the artifact that it reads back, not in the files. Nothing is lost by that, and next to nothing
gained: the artifact is decoded from its own octets as it is, and every body starts and ends a line. A header is made of
comments, but for a path with a line feed in it, whose later lines stand there by themselves. So the imports of the
artifact are those of the paths and bodies (`scanImports_blocks`), and those of the bodies when no path has a line feed
(`harvest_blocks`).
-/

namespace ImportHarvest

open Text

/-! ## Blocks -/

/-- the names that a path imports in a header: its first line stands behind a comment sign, each later one by itself -/
def pathImports (path : String) : List (List Char) := (pieces '\n' path.toList).tail.filterMap lineImport

theorem pathImports_of_not_mem {path : String} (h : '\n' ∉ path.toList) : pathImports path = [] := by
  rw [pathImports, pieces_of_not_mem h]
  rfl

/-- a text in front adds to the first line only -/
theorem tail_pieces_append {front : List Char} (h : '\n' ∉ front) (cs : List Char) :
    (pieces '\n' (front ++ cs)).tail = (pieces '\n' cs).tail := by
  rw [pieces_append_of_not_mem h]
  cases pieces '\n' cs <;> rfl

/-- behind a comment sign, all lines but the first import what they do -/
theorem scanImports_comment (cs rest : List Char) :
    scanImports true ('#' :: (cs ++ '\n' :: rest)) =
      (pieces '\n' cs).tail.filterMap lineImport ++ scanImports true rest := by
  have hlines : (pieces '\n' ('#' :: cs)).filterMap lineImport = (pieces '\n' cs).tail.filterMap lineImport := by
    rw [pieces, if_neg (by decide)]
    cases hp : pieces '\n' cs with
    | nil => exact absurd hp (pieces_ne_nil _ _)
    | cons first lines =>
      have hfirst : lineImport ('#' :: first) = none := rfl
      rw [List.filterMap_cons, hfirst, List.tail_cons]
  rw [← List.cons_append, scanImports_append, scanImports_eq_lines, hlines]

/-- **A block imports what its path does, then what its body does**: all else in its header is a comment, and its body
starts and ends a line -/
theorem scanImports_block (path body rest : List Char) :
    scanImports true ("# ---\n# Filename: ".toList ++ path ++ "\n# ---\n\n".toList ++ body ++ "\n\n".toList ++ rest) =
      (pieces '\n' path).tail.filterMap lineImport ++ (scanImports true body ++ scanImports true rest) := by
  have hlines : "# ---\n# Filename: ".toList ++ path ++ "\n# ---\n\n".toList ++ body ++ "\n\n".toList ++ rest =
      '#' :: (" ---".toList ++ '\n' :: '#' :: (" Filename: ".toList ++ path ++ '\n' :: '#' :: (" ---".toList ++
        '\n' :: '\n' :: (body ++ '\n' :: '\n' :: rest)))) := by
    simp
  have hdash : (pieces '\n' " ---".toList).tail.filterMap lineImport = [] := rfl
  have hname : '\n' ∉ " Filename: ".toList := by decide
  rw [hlines]
  simp only [scanImports_append, scanImports_comment, scanImports_blank, hdash, tail_pieces_append hname, List.nil_append]

/-- **The imports of the artifact are those of its paths and bodies**, block by block -/
theorem scanImports_blocks (selected : List (Record × String)) :
    scanImports true (blocks selected).toList =
      selected.flatMap fun f => pathImports f.1.path ++ scanImports true f.2.toList := by
  induction selected with
  | nil =>
    have hb : blocks [] = "" := rfl
    rw [hb, String.toList_empty, scanImports, List.flatMap_nil]
  | cons f selected ih =>
    obtain ⟨r, body⟩ := f
    rw [blocks_cons]
    simp only [String.toList_append]
    rw [scanImports_block, ih, List.flatMap_cons, List.append_assoc]
    rfl

/-- an artifact is empty or starts with a comment -/
theorem head?_blocks (selected : List (Record × String)) : (blocks selected).toList.head? ≠ some '\uFEFF' := by
  cases selected with
  | nil =>
    have hb : blocks [] = "" := rfl
    rw [hb]
    decide
  | cons f selected =>
    obtain ⟨r, body⟩ := f
    rw [blocks_cons]
    simp

/-- the modules that are found in the octets of an artifact are those of its paths and bodies, in first-seen order -/
theorem toList_harvest_blocks (selected : List (Record × String)) :
    (harvest (decode (utf8Of (blocks selected)))).toList =
      ((selected.flatMap fun f => pathImports f.1.path ++ scanImports true f.2.toList).map String.ofList).eraseDups := by
  rw [decode_utf8Of (head?_blocks selected), toList_harvest, scanImports_blocks]

/-- the modules of paths without line feeds are those of the bodies alone -/
theorem harvest_blocks {selected : List (Record × String)} (h : ∀ f ∈ selected, '\n' ∉ f.1.path.toList) :
    (harvest (decode (utf8Of (blocks selected)))).toList =
      (selected.flatMap fun f => (harvest f.2).toList).eraseDups := by
  have hbodies : (selected.flatMap fun f => pathImports f.1.path ++ scanImports true f.2.toList) =
      selected.flatMap fun f => scanImports true f.2.toList := by
    have hbody : ∀ f ∈ selected, pathImports f.1.path ++ scanImports true f.2.toList = scanImports true f.2.toList := by
      intro f hf
      rw [pathImports_of_not_mem (h f hf), List.nil_append]
    rw [List.flatMap_def, List.flatMap_def, List.map_congr_left hbody]
  rw [toList_harvest_blocks, hbodies, List.map_flatMap]
  simp only [toList_harvest]
  exact (eraseDups_flatMap (fun f : Record × String => (scanImports true f.2.toList).map String.ofList) selected).symm

/-! ## Runs -/

/-- **A run finds the modules of its files.** A run that succeeds went through a walk that finished. Where its artifact
is a file, which may be new, and no file that it took has a line feed in its path, the modules are the names that the
texts of these files import, in walk order and each where it was first seen. The command installs the modules. -/
theorem modules_of_files (steps : Nat) (source : TreeSource BufferedFile) (config : Config) (disk : Disk) (run : Run)
    (outcome : Outcome) (h : runPipeline steps source config disk = some run) (hok : run.result = .ok outcome) :
    ∃ filter place w seen, Begins config disk filter place w ∧ Walk source filter w seen .finished ∧
      (disk.FilePlace place → (∀ f ∈ selection filter seen, '\n' ∉ f.1.path.toList) →
        outcome.modules.toList = ((selection filter seen).flatMap fun f => (harvest f.2).toList).eraseDups) ∧
      outcome.command = "pip install " ++ " ".intercalate outcome.modules.toList := by
  obtain ⟨filter, place, w, seen, hb, hs, hw⟩ := walk_of_runPipeline h hok
  obtain ⟨run', hr, -, -, outcome', hres, hm, hc⟩ := runPipeline_of_walk hb hw hs
  obtain rfl : run' = run := Option.some_inj.1 (hr.symm.trans h)
  obtain rfl : outcome' = outcome := Except.ok.inj (hres.symm.trans hok)
  refine ⟨filter, place, w, seen, hb, hw, ?_, hc⟩
  intro hfile hpaths
  rw [hm, Disk.kept_of_filePlace hfile, harvest_blocks hpaths]

theorem smallTree_modules : ∃ run outcome,
    runPipeline 4 (smallTree BufferedFile) { Config.standard with outputPath := "out" } .empty = some run ∧
      run.result = .ok outcome ∧ outcome.modules.toList = ["os"] ∧ outcome.command = "pip install os" := by
  have hb : Begins { Config.standard with outputPath := "out" } .empty pythonFilter ["out"]
      { output := ⟨Disk.empty.put ["out"] (.file []), ["out"], []⟩ } := ⟨rfl, _, rfl, rfl⟩
  obtain ⟨run, hr, -, -, outcome, hok, -⟩ := runPipeline_of_walk hb (smallTree_walk _) (show 3 < 4 by decide)
  obtain ⟨filter, place, w, seen, hb', hw', hm, hc⟩ := modules_of_files _ _ _ _ _ _ hr hok
  obtain ⟨rfl, rfl, rfl⟩ := hb.unique hb'
  obtain ⟨rfl, -⟩ := (smallTree_walk _).unique hw'
  have hbody : bodyOf pythonRecord (utf8Of "import os") = some "import os" := by
    rw [bodyOf, if_neg (by decide), decode_utf8Of (by decide)]
  have hsel : selection pythonFilter smallSeen = [(pythonRecord, "import os")] := by
    rw [smallSeen, selection_cons, selection_cons _ (pythonRecord, _), selection_of_not_wanted (by decide),
      selection_of_wanted (by decide), selection_of_not_wanted (by decide), hbody]
    rfl
  have hmodules : outcome.modules.toList = ["os"] := by
    rw [hsel] at hm
    rw [hm (Disk.filePlace_top (.inl rfl)) (by decide), List.flatMap_cons, List.flatMap_nil, toList_harvest,
      scanImports_eq_lines]
    decide
  refine ⟨run, outcome, hr, hok, hmodules, ?_⟩
  rw [hc, hmodules]
  decide

/-! On the null device nothing is kept of an artifact, and the modules are looked for in what is read back. -/

/-- a working directory with one file, beside the devices -/
def deviceDisk : Disk where
  entries := [("dev", .directory [("null", .special .nullDevice)]),
    ("work", .directory [("a.py", .file (utf8Of "import os\n"))])]
  here := ["work"]

def hereTree : LocalTree := ⟨".", false⟩

def deviceRecord : Record := ⟨"./a.py", "a.py", "a.py", false, .path "./a.py"⟩

def deviceWorld : World BufferedFile := { output := ⟨deviceDisk, ["dev", "null"], []⟩ }

theorem deviceWorld_walk : LocalTree.walk hereTree deviceWorld.output.disk = ⟨[deviceRecord], none⟩ := by
  have hroot : deviceWorld.output.disk.resolve true "." =
      .ok ⟨["work"], .directory [("a.py", .file (utf8Of "import os\n"))], Disk.maxLinks⟩ := rfl
  rw [LocalTree.walk, hereTree, hroot]
  simp only [LocalTree.walkChildren]
  rfl

/-- the command installs nothing, though a file that went into the artifact imports a module -/
theorem deviceDisk_installs_nothing : ∃ run outcome,
    runPipeline 2 hereTree.source { Config.standard with outputPath := "/dev/null" } deviceDisk = some run ∧
      run.result = .ok outcome ∧ run.processed = [deviceRecord] ∧ '\n' ∉ deviceRecord.path.toList ∧
      LocalTree.read deviceDisk deviceRecord = .ok (utf8Of "import os\n") ∧
      (harvest (decode (utf8Of "import os\n"))).toList = ["os"] ∧
      outcome.modules.toList = [] ∧ outcome.command = "pip install " := by
  have hb : Begins { Config.standard with outputPath := "/dev/null" } deviceDisk pythonFilter ["dev", "null"]
      deviceWorld := ⟨rfl, _, rfl, rfl⟩
  have hw : Walk hereTree.source pythonFilter deviceWorld [(deviceRecord, utf8Of "import os\n")] .finished := by
    have hstart : hereTree.source.start deviceWorld = [.ok deviceRecord] := by
      change (LocalTree.walk hereTree deviceWorld.output.disk).items = _
      rw [deviceWorld_walk]
      rfl
    unfold Walk
    rw [hstart]
    exact ⟨_, _, _, _, .cons (.read rfl (by decide) rfl) .nil, .finished rfl⟩
  obtain ⟨run, hr, -, hproc, outcome, hok, hm, hc⟩ := runPipeline_of_walk hb hw (show 1 < 2 by decide)
  have hdevice : deviceDisk.IsDevice ["dev", "null"] := rfl
  have hnothing : decode [] = "" := decode_utf8Of (show "".toList.head? ≠ some '\uFEFF' by decide)
  have hmodules : outcome.modules.toList = [] := by
    rw [hm, Disk.kept_of_isDevice hdevice, hnothing, toList_harvest, String.toList_empty, scanImports]
    rfl
  refine ⟨run, outcome, hr, hok, by rw [hproc]; rfl, by decide, rfl, ?_, hmodules, ?_⟩
  · rw [decode_utf8Of (by decide), toList_harvest, scanImports_eq_lines]
    decide
  · rw [hc, installCommand, hmodules]
    decide

end ImportHarvest

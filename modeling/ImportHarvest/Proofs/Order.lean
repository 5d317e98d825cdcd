import ImportHarvest.Proofs.Counts
import ImportHarvest.Proofs.Modules
/-!
The order of a walk.

Two walks that show the same records with the same contents, in whatever order, come to the same but for the order: the
counters are equal (`tally_perm`), the blocks are the same ones, and the artifacts import the same modules, since a block
imports the same wherever it stands (`scanImports_blocks`), with whatever path and body.
-/

namespace ImportHarvest

open Text

/-! ## Counters -/

section

variable {filter : Filter} {seen seen' : List Sight}

theorem selection_perm (h : seen.Perm seen') : (selection filter seen).Perm (selection filter seen') := h.filterMap _

theorem utf8Of_blocks (selected : List (Record × String)) :
    utf8Of (blocks selected) = selected.flatMap fun f => utf8Of (block f.1.path f.2) := by
  rw [blocks, utf8Of_join, List.flatMap_map]

/-- the counters, and the number of octets, do not depend on the order of the records -/
theorem tally_perm (h : seen.Perm seen') : tally filter seen = tally filter seen' := by
  have hbytes : (utf8Of (blocks (selection filter seen))).length = (utf8Of (blocks (selection filter seen'))).length := by
    rw [utf8Of_blocks, utf8Of_blocks]
    exact ((selection_perm h).flatMap_right _).length_eq
  simp only [tally, countOf, h.countP_eq, hbytes]

end

/-! ## Imports -/

/-- blocks in another order import the same modules, each once -/
theorem harvest_perm {selected selected' : List (Record × String)} (h : selected.Perm selected') :
    (harvest (decode (utf8Of (blocks selected)))).toList.Perm
      (harvest (decode (utf8Of (blocks selected')))).toList := by
  have hmem : ∀ name, name ∈ (harvest (decode (utf8Of (blocks selected)))).toList ↔
      name ∈ (harvest (decode (utf8Of (blocks selected')))).toList := by
    intro name
    rw [toList_harvest_blocks, toList_harvest_blocks, List.mem_eraseDups, List.mem_eraseDups]
    exact ((h.flatMap_right _).map _).mem_iff
  exact (List.perm_ext_iff_of_nodup (harvest _).nodup (harvest _).nodup).2 hmem

/-! ## Runs -/

/-- **The order of a walk makes no difference but for the order.** When two sources show the same records with the same
contents, in whatever order and without a failure, both runs succeed with the same counters in every field; the artifacts
hold the same blocks, each as often, and import the same modules. -/
theorem runs_agree_up_to_order {τ₁ τ₂ : Type} [Sink τ₁] [Sink τ₂] (u₁ : Sink.Unlimited τ₁) (u₂ : Sink.Unlimited τ₂)
    (source₁ : TreeSource τ₁) (source₂ : TreeSource τ₂) (filter : Filter) (w₁ : World τ₁) (w₂ : World τ₂)
    (seen₁ seen₂ : List Sight) (hu₁ : u₁.accepts w₁.output) (hu₂ : u₂.accepts w₂.output)
    (h₁ : Walk source₁ filter w₁ seen₁ .finished) (h₂ : Walk source₂ filter w₂ seen₂ .finished)
    (hp : seen₁.Perm seen₂) (steps : Nat) (hs : seen₁.length < steps) :
    ∃ stats after₁ after₂,
      aggregate steps source₁ filter w₁ = some (.ok stats, after₁) ∧
      aggregate steps source₂ filter w₂ = some (.ok stats, after₂) ∧
      u₁.held after₁.output = u₁.held w₁.output ++ utf8Of (blocks (selection filter seen₁)) ∧
      u₂.held after₂.output = u₂.held w₂.output ++ utf8Of (blocks (selection filter seen₂)) ∧
      (selection filter seen₁).Perm (selection filter seen₂) ∧
      (harvest (decode (utf8Of (blocks (selection filter seen₁))))).toList.Perm
        (harvest (decode (utf8Of (blocks (selection filter seen₂))))).toList := by
  obtain ⟨after₁, ha₁, hh₁⟩ := aggregate_of_finished u₁ hu₁ h₁ hs
  obtain ⟨after₂, ha₂, hh₂⟩ := aggregate_of_finished u₂ hu₂ h₂ (hp.length_eq ▸ hs)
  rw [← tally_perm hp] at ha₂
  exact ⟨tally filter seen₁, after₁, after₂, ha₁, ha₂, hh₁, hh₂, selection_perm hp, harvest_perm (selection_perm hp)⟩

/-! A directory with two Python files, one with a line feed in its name, walked in two orders, once into memory and once
into a file. -/

def brokenNameRecord : Record := ⟨"lib/\nimport sys.py", "lib/\nimport sys.py", "\nimport sys.py", false, .path "lib/b"⟩

def recordsTree (records : List Record) (τ : Type) : TreeSource τ :=
  .ofItems "records" (fun _ => records.map .ok) fun _ _ => .ok (utf8Of "import os")

def forwardSeen : List Sight :=
  [(libRecord, []), (pythonRecord, utf8Of "import os"), (brokenNameRecord, utf8Of "import os")]

def backwardSeen : List Sight :=
  [(libRecord, []), (brokenNameRecord, utf8Of "import os"), (pythonRecord, utf8Of "import os")]

theorem recordsTree_walk {τ : Type} [Sink τ] (w : World τ) :
    Walk (recordsTree (forwardSeen.map Prod.fst) τ) pythonFilter w forwardSeen .finished ∧
      Walk (recordsTree (backwardSeen.map Prod.fst) τ) pythonFilter w backwardSeen .finished :=
  ⟨⟨_, _, _, _, .cons (.passed rfl rfl) (.cons (.read rfl (by decide) rfl) (.cons (.read rfl (by decide) rfl) .nil)),
      .finished rfl⟩,
    ⟨_, _, _, _, .cons (.passed rfl rfl) (.cons (.read rfl (by decide) rfl) (.cons (.read rfl (by decide) rfl) .nil)),
      .finished rfl⟩⟩

theorem recordsTree_in_two_orders :
    forwardSeen.Perm backwardSeen ∧
    ∃ stats after₁ after₂,
      aggregate 4 (recordsTree (forwardSeen.map Prod.fst) LimitedSink) pythonFilter { output := .unlimited } =
        some (.ok stats, after₁) ∧
      aggregate 4 (recordsTree (backwardSeen.map Prod.fst) BufferedFile) pythonFilter
        { output := ⟨Disk.empty.put ["out"] (.file []), ["out"], []⟩ } = some (.ok stats, after₂) ∧
      (selection pythonFilter forwardSeen).Perm (selection pythonFilter backwardSeen) ∧
      (harvest (decode after₁.output.held)).toList.Perm (harvest (decode after₂.output.held)).toList := by
  have hb : Begins { Config.standard with outputPath := "out" } .empty pythonFilter ["out"]
      { output := ⟨Disk.empty.put ["out"] (.file []), ["out"], []⟩ } := ⟨rfl, _, rfl, rfl⟩
  have hplace : Disk.empty.FilePlace ["out"] := Disk.filePlace_top (.inl rfl)
  obtain ⟨hon, hheld⟩ := hb.on hplace
  obtain ⟨stats, after₁, after₂, ha₁, ha₂, hh₁, hh₂, hselected, hmodules⟩ :=
    runs_agree_up_to_order LimitedSink.takesAll (BufferedFile.takesAll hplace) _ _ pythonFilter { output := .unlimited } _
      forwardSeen backwardSeen ⟨rfl, rfl⟩ hon (recordsTree_walk _).1 (recordsTree_walk _).2 (by decide) 4 (by decide)
  refine ⟨by decide, stats, after₁, after₂, ha₁, ha₂, hselected, ?_⟩
  have h₁ : after₁.output.held = utf8Of (blocks (selection pythonFilter forwardSeen)) := hh₁
  have h₂ : after₂.output.held = utf8Of (blocks (selection pythonFilter backwardSeen)) := by
    rw [← List.nil_append (utf8Of _), ← hheld]
    exact hh₂
  rw [h₁, h₂]
  exact hmodules

end ImportHarvest

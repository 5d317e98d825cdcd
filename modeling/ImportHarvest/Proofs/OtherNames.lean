import ImportHarvest.Proofs.Layers
/-!
Settings by their other names.

Read from one record, a setting may go by either of its names and comes to the same (`ofTable?_written`,
`ofJson?_written`). Loading reads all layers as one record, and there the standard settings stand by their own names. So
a setting that the file gives by another name is given twice, and settings that load by their own names do not load by
their other ones (`other_names_are_refused`).
-/

namespace ImportHarvest.Settings

open Text

/-! ## Other names -/

/-- the name that a setting is written by, when those that are chosen are written by their other names -/
def writtenName (chosen : String → Bool) (name : String) : String :=
  if chosen name then (otherNames.lookup name).getD name else name

/-- the same settings, those that are chosen by their other names -/
def Table.written (chosen : String → Bool) (t : Table) : Table := t.map fun e => (writtenName chosen e.1, e.2)

section

variable (chosen : String → Bool)

/-- a name stays, or another name of the setting takes its place -/
theorem writtenName_eq_or (name : String) :
    writtenName chosen name = name ∨ (name, writtenName chosen name) ∈ otherNames := by
  unfold writtenName
  split_ifs
  · cases h : otherNames.lookup name with
    | none => exact .inl rfl
    | some other =>
      obtain ⟨before, after, hsplit, -⟩ := List.lookup_eq_some_iff.1 h
      exact .inr (by rw [hsplit]; simp)
  · exact .inl rfl

/-- a setting stays the same setting -/
theorem find?_writtenName (name : String) : Config.fields.find? (writtenName chosen name) = Config.fields.find? name := by
  rcases writtenName_eq_or chosen name with h | h
  · rw [h]
  · obtain ⟨-, -, hfind⟩ := find?_otherName _ h
    exact hfind

/-- in one table it does not matter which of its names a setting goes by -/
theorem ofTable?_written (t : Table) : Config.ofTable? (t.written chosen) = Config.ofTable? t := by
  rw [Config.ofTable?, Config.ofTable?, Table.written, Fields.place?_map_name (find?_writtenName chosen)]

/-- in one JSON object it does not matter either -/
theorem ofJson?_written (members : List (Option String × Json)) :
    Config.ofJson? (.object (members.map fun m => (m.1.map (writtenName chosen), m.2))) =
      Config.ofJson? (.object members) := by
  rw [Config.ofJson?, Config.ofJson?, Json.record?_rename (find?_writtenName chosen)]

/-- what is not written as it was has another name in it -/
theorem written_eq_of_plain {t : Table} (h : (t.written chosen).Plain) : t.written chosen = t := by
  have hname : ∀ e ∈ t, writtenName chosen e.1 = e.1 := by
    intro e he
    rcases writtenName_eq_or chosen e.1 with hsame | hother
    · exact hsame
    · exact absurd (List.mem_map_of_mem hother) (h _ (List.mem_map_of_mem he))
  calc t.written chosen = t.map id := List.map_congr_left fun e he => Prod.ext (hname e he) rfl
    _ = t := List.map_id t

end

/-- **Other names are good in a document, and refused in a file.** A table and a JSON object come to the same settings
whichever of its names a setting goes by. But a file that gives some setting by another name is never loaded, so it
loads like the file with the settings' own names exactly when no name differs, or that file is not loaded either. -/
theorem other_names_are_refused (chosen : String → Bool) (t : Table) (members : List (Option String × Json)) :
    Config.ofTable? (t.written chosen) = Config.ofTable? t ∧
    Config.ofJson? (.object (members.map fun m => (m.1.map (writtenName chosen), m.2))) =
      Config.ofJson? (.object members) ∧
    ∀ (d d' : Disk) (env : Environment) (anchor anchor' : String) (explicit explicit' : Option String),
      fileLayer d anchor explicit = .ok (t.written chosen) → fileLayer d' anchor' explicit' = .ok t →
      (t.written chosen ≠ t → load d env anchor explicit = .error .invalid) ∧
      (load d env anchor explicit = load d' env anchor' explicit' ↔
        t.written chosen = t ∨ load d' env anchor' explicit' = .error .invalid) := by
  refine ⟨ofTable?_written chosen t, ofJson?_written chosen members, ?_⟩
  intro d d' env anchor anchor' explicit explicit' hfile hfile'
  by_cases hsame : t.written chosen = t
  · have hload : load d env anchor explicit = load d' env anchor' explicit' := by
      rw [load_of_file hfile, load_of_file hfile', hsame]
    exact ⟨fun hne => absurd hsame hne, fun _ => .inl hsame, fun _ => hload⟩
  · have hrefused : load d env anchor explicit = .error .invalid := by
      apply load_of_otherName hfile
      rintro ⟨hplain, -⟩
      exact hsame (written_eq_of_plain chosen hplain)
    refine ⟨fun _ => hrefused, fun hload => .inr (hload.symm.trans hrefused), ?_⟩
    rintro (h | hinvalid)
    · exact absurd h hsame
    · rw [hrefused, hinvalid]

/-! An output file by either of its names. -/

def outputDisk (name : String) : Disk := { entries := [("pipmyride.toml", .file (utf8Of (name ++ " = \"deps.txt\"\n")))] }

theorem outputDisk_files :
    fileLayer (outputDisk "output") "." none = .ok [("output", .text "deps.txt")] ∧
      fileLayer (outputDisk "output_path") "." none = .ok [("output_path", .text "deps.txt")] := by
  have hread : ∀ name, (outputDisk name).read "./pipmyride.toml" = .ok (utf8Of (name ++ " = \"deps.txt\"\n")) :=
    fun _ => rfl
  have hother : Format.toml.parse? "output = \"deps.txt\"\n".toList = some [("output", .text "deps.txt")] := by decide +kernel
  have hown : Format.toml.parse? "output_path = \"deps.txt\"\n".toList = some [("output_path", .text "deps.txt")] := by
    decide +kernel
  exact ⟨fileLayer_usual rfl (hread "output") hother, fileLayer_usual rfl (hread "output_path") hown⟩

theorem outputDisk_refused :
    Table.written (fun _ => true) [("output_path", .text "deps.txt")] = [("output", .text "deps.txt")] ∧
      load (outputDisk "output") [] "." none = .error .invalid ∧
      load (outputDisk "output") [] "." none ≠ load (outputDisk "output_path") [] "." none := by
  have hwritten : Table.written (fun _ => true) [("output_path", .text "deps.txt")] = [("output", .text "deps.txt")] :=
    rfl
  have hne : Table.written (fun _ => true) [("output_path", .text "deps.txt")] ≠ [("output_path", .text "deps.txt")] := by
    rw [hwritten]
    simp
  obtain ⟨hother, hown⟩ := outputDisk_files
  obtain ⟨hrefused, hsame⟩ := (other_names_are_refused (fun _ => true) [("output_path", .text "deps.txt")] []).2.2
    (outputDisk "output") (outputDisk "output_path") [] "." "." none none hother hown
  refine ⟨hwritten, hrefused hne, fun hload => ?_⟩
  rcases hsame.1 hload with h | h
  · exact hne h
  · rw [load_of_file hown] at h
    cases h

/-- the settings of the file are lost with the other name, though the table has a meaning -/
theorem outputDisk_other_name_lost :
    load (outputDisk "output_path") [] "." none = .ok { Config.standard with outputPath := "deps.txt" } ∧
      load (outputDisk "output") [] "." none = .error .invalid ∧
      Config.ofTable? [("output", .text "deps.txt")] = some { Config.standard with outputPath := "deps.txt" } := by
  obtain ⟨hother, hown⟩ := outputDisk_files
  rw [load_of_file hown, load_of_file hother]
  exact ⟨rfl, rfl, rfl⟩

end ImportHarvest.Settings

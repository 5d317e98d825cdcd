import ImportHarvest.Proofs.Run
/-!
What an artifact holds, said of the records of a walk and the contents of their files.

`Contributes` says when a file has a text in the artifact, and which; `Artifact` is the artifact of a walk, record by
record. Neither looks at how a run comes to it. The selection of the model is that artifact and no other
(`artifact_iff`), so a run over a walk that finishes succeeds and adds exactly the artifact to what its output held
(`aggregate_writes_artifact`), for every source, filter and output that takes everything.
-/

namespace ImportHarvest

open Text

/-- the filter takes the file, and `body` is its text: the script of a notebook, or else the decoded content -/
structure Contributes (filter : Filter) (r : Record) (content : Octets) (body : String) : Prop where
  file : r.isDir = false
  allowed : ∃ ext ∈ filter.extensions, ext.toList <:+ r.name.toList
  kept : filter.isExcluded r.relativePath = false
  text : if ".ipynb".toList <:+ r.name.toList then scriptOf (decode content) = .ok body else body = decode content

/-- the artifact of a walk: one block for each file that contributes, in walk order, and nothing for the others -/
inductive Artifact (filter : Filter) : List Sight → String → Prop where
  | empty : Artifact filter [] ""
  | block {r : Record} {content : Octets} {body : String} {seen : List Sight} {text : String} :
      Contributes filter r content body → Artifact filter seen text →
      Artifact filter ((r, content) :: seen)
        ("# ---\n# Filename: " ++ r.path ++ "\n# ---\n\n" ++ body ++ "\n\n" ++ text)
  | nothing {r : Record} {content : Octets} {seen : List Sight} {text : String} :
      (∀ body, ¬ Contributes filter r content body) → Artifact filter seen text →
      Artifact filter ((r, content) :: seen) text

/-! ## The selection is the artifact -/

section

variable {filter : Filter} {r : Record} {content : Octets} {body : String}

theorem bodyOf_eq_some : bodyOf r content = some body ↔
    if ".ipynb".toList <:+ r.name.toList then scriptOf (decode content) = .ok body else body = decode content := by
  have hn : r.isNotebook = true ↔ ".ipynb".toList <:+ r.name.toList := endsWith_iff
  unfold bodyOf
  by_cases h : r.isNotebook = true
  · rw [if_pos h, if_pos (hn.1 h)]
    cases scriptOf (decode content) <;> simp [Except.toOption]
  · rw [if_neg h, if_neg (fun hs => h (hn.2 hs)), Option.some_inj, eq_comm]

theorem wants_eq_true : filter.wants r = true ↔
    r.isDir = false ∧ (∃ ext ∈ filter.extensions, ext.toList <:+ r.name.toList) ∧
      filter.isExcluded r.relativePath = false := by
  simp [Filter.wants, Filter.isEligible, endsWith_iff, and_assoc]

/-- a file contributes its text when the filter wants it and it has one -/
theorem contributes_iff : Contributes filter r content body ↔
    filter.wants r = true ∧ bodyOf r content = some body := by
  rw [wants_eq_true, bodyOf_eq_some]
  constructor
  · intro h
    exact ⟨⟨h.file, h.allowed, h.kept⟩, h.text⟩
  · intro ⟨⟨hf, ha, hk⟩, ht⟩
    exact ⟨hf, ha, hk, ht⟩

theorem selection_of_contributes (h : Contributes filter r content body) :
    selection filter [(r, content)] = [(r, body)] := by
  obtain ⟨hw, hb⟩ := contributes_iff.1 h
  rw [selection_of_wanted hw, hb]
  rfl

theorem selection_of_not_contributes (h : ∀ body, ¬ Contributes filter r content body) :
    selection filter [(r, content)] = [] := by
  cases hw : filter.wants r with
  | false => exact selection_of_not_wanted hw content
  | true =>
    rw [selection_of_wanted hw]
    cases hb : bodyOf r content with
    | none => rfl
    | some body => exact absurd (contributes_iff.2 ⟨hw, hb⟩) (h body)

theorem blocks_cons (r : Record) (body : String) (rest : List (Record × String)) : blocks ((r, body) :: rest) =
    "# ---\n# Filename: " ++ r.path ++ "\n# ---\n\n" ++ body ++ "\n\n" ++ blocks rest := by
  have hb : block r.path body = blockHeader r.path ++ body ++ blockTrailer := by
    rw [block, blockTexts, String.join_cons, String.join_cons, String.join_cons, String.join_nil, String.append_empty,
      ← String.append_assoc]
  calc blocks ((r, body) :: rest)
      = block r.path body ++ blocks rest := by rw [blocks, List.map_cons, String.join_cons]; rfl
    _ = blockHeader r.path ++ body ++ blockTrailer ++ blocks rest := by rw [hb]

/-- **The artifact of a walk is determined**: it is the blocks of the files that are selected -/
theorem artifact_iff {seen : List Sight} {text : String} :
    Artifact filter seen text ↔ text = blocks (selection filter seen) := by
  constructor
  · intro h
    induction h with
    | empty => rfl
    | @block r _ body seen _ hc _ ih =>
      rw [ih, selection_cons, selection_of_contributes hc, List.singleton_append,
        blocks_cons r body (selection filter seen)]
    | nothing hn _ ih => rw [ih, selection_cons, selection_of_not_contributes hn, List.nil_append]
  · rintro rfl
    induction seen with
    | nil => exact .empty
    | cons s seen ih =>
      obtain ⟨r, content⟩ := s
      rw [selection_cons]
      by_cases hc : ∃ body, Contributes filter r content body
      · obtain ⟨body, hc⟩ := hc
        rw [selection_of_contributes hc, List.singleton_append, blocks_cons r body (selection filter seen)]
        exact .block hc ih
      · rw [selection_of_not_contributes (not_exists.1 hc), List.nil_append]
        exact .nothing (not_exists.1 hc) ih

end

/-! ## Runs over walks that finish -/

/-- **The artifact is exact**: over a walk that finishes a run succeeds, whatever the files contain, and adds the
artifact of the walk to an output that takes everything, and nothing else -/
theorem aggregate_writes_artifact {τ : Type} [Sink τ] (u : Sink.Unlimited τ) (source : TreeSource τ) (filter : Filter)
    (w : World τ) (seen : List Sight) (hu : u.accepts w.output) (h : Walk source filter w seen .finished) (steps : Nat)
    (hs : seen.length < steps) :
    ∃ stats after text, aggregate steps source filter w = some (.ok stats, after) ∧ Artifact filter seen text ∧
      u.held after.output = u.held w.output ++ utf8Of text := by
  obtain ⟨result, after, hr, ⟨stats, rfl⟩, -, -, hh⟩ := aggregate_of_walk u hu h hs
  exact ⟨stats, after, blocks (selection filter seen), hr, artifact_iff.2 rfl, hh⟩

/-! A directory, a Python file in it and a text file, walked for Python files into memory that already holds an octet. -/

def libRecord : Record := ⟨"lib", "lib", "lib", true, .path "lib"⟩

def pythonRecord : Record := ⟨"lib/a.py", "lib/a.py", "a.py", false, .path "lib/a.py"⟩

def notesRecord : Record := ⟨"notes.txt", "notes.txt", "notes.txt", false, .path "notes.txt"⟩

/-- one file and a directory around it, with something else beside them -/
def smallTree (τ : Type) : TreeSource τ :=
  .ofItems "small" (fun _ => [.ok libRecord, .ok pythonRecord, .ok notesRecord]) fun _ _ => .ok (utf8Of "import os")

def pythonFilter : Filter := ⟨[".py"], []⟩

def smallSeen : List Sight := [(libRecord, []), (pythonRecord, utf8Of "import os"), (notesRecord, [])]

theorem smallTree_walk {τ : Type} [Sink τ] (w : World τ) : Walk (smallTree τ) pythonFilter w smallSeen .finished :=
  ⟨_, _, _, _, .cons (.passed rfl rfl) (.cons (.read rfl (by decide) rfl) (.cons (.passed rfl (by decide)) .nil)),
    .finished rfl⟩

theorem smallTree_artifact :
    Walk (smallTree LimitedSink) pythonFilter { output := ⟨[0x78], none, false⟩ } smallSeen .finished ∧
    ∃ stats after text,
      aggregate 4 (smallTree LimitedSink) pythonFilter { output := ⟨[0x78], none, false⟩ } = some (.ok stats, after) ∧
        Artifact pythonFilter smallSeen text ∧ after.output.held = 0x78 :: utf8Of text :=
  ⟨smallTree_walk _, aggregate_writes_artifact LimitedSink.takesAll (smallTree LimitedSink) pythonFilter _ smallSeen
    ⟨rfl, rfl⟩ (smallTree_walk _) 4 (by decide)⟩

end ImportHarvest

import ImportHarvest.RemoteTree.Expansion
/-!
The walk of a repository is its tree of listings in depth-first pre-order.

`ExpandsEntries` says what entries expand to, by recursion on the tree: a directory's record comes right before the
whole expansion of its listing, and that before its next sibling; a listing that fails ends everything. The walk keeps a
stack of half-used listings instead. What is still to come is what the stack expands to, one listing after the other
(`Remains`); a call takes the first item off it (`Call.remains`), so the calls of a walk give the items of the
expansion one by one, and nothing ever after (`nth_eq_expansion`). With a bound on the depth, `expand` computes the same
(`expands_iff`).
-/

namespace ImportHarvest.RemoteTree

/-! ## Expansion -/

/-- an entry that has a record: a directory, or a file with a download address -/
def HasRecord (e : Entry) : Prop := e.kind = "dir" ∨ e.kind = "file" ∧ ∃ url, e.downloadUrl = some url

theorem hasRecord_iff (e : Entry) :
    (e.kind = "dir" || (e.kind = "file" && e.downloadUrl.isSome)) = true ↔ HasRecord e := by
  simp [HasRecord, Option.isSome_iff_exists]

/-- the record of a file -/
def fileRecord (rootPath : Option String) (e : Entry) (downloadUrl : String) : Record where
  path := e.path
  relativePath := relativePath rootPath e.path
  name := e.name
  isDir := false
  content := .url downloadUrl

/-- the record of a directory -/
def directoryRecord (rootPath : Option String) (e : Entry) : Record where
  path := e.path
  relativePath := relativePath rootPath e.path
  name := e.name
  isDir := true
  content := .url e.url

/-- the records that entries expand to, and the failure that comes after them, if one does -/
inductive ExpandsEntries (api : ContentsApi) (rootPath : Option String) :
    List Entry → List Record → Option Failure → Prop where
  | nil : ExpandsEntries api rootPath [] [] none
  | file {e : Entry} {url : String} {rest : List Entry} {records : List Record} {failure : Option Failure} :
      e.kind = "file" → e.downloadUrl = some url → ExpandsEntries api rootPath rest records failure →
      ExpandsEntries api rootPath (e :: rest) (fileRecord rootPath e url :: records) failure
  | passed {e : Entry} {rest : List Entry} {records : List Record} {failure : Option Failure} :
      e.kind ≠ "dir" → (e.kind = "file" → e.downloadUrl = none) → ExpandsEntries api rootPath rest records failure →
      ExpandsEntries api rootPath (e :: rest) records failure
  | directory {e : Entry} {children rest : List Entry} {below after : List Record} {failure : Option Failure} :
      e.kind = "dir" → api.list e.url = .ok children → ExpandsEntries api rootPath children below none →
      ExpandsEntries api rootPath rest after failure →
      ExpandsEntries api rootPath (e :: rest) (directoryRecord rootPath e :: (below ++ after)) failure
  | broken {e : Entry} {children rest : List Entry} {below : List Record} {f : Failure} :
      e.kind = "dir" → api.list e.url = .ok children → ExpandsEntries api rootPath children below (some f) →
      ExpandsEntries api rootPath (e :: rest) (directoryRecord rootPath e :: below) (some f)
  | unlisted {e : Entry} {rest : List Entry} {f : Failure} :
      e.kind = "dir" → api.list e.url = .error f → ExpandsEntries api rootPath (e :: rest) [] (some f)

/-- the records that a whole tree expands to, and the failure that comes after them, if one does -/
inductive Expands (t : RemoteTree) : List Record → Option Failure → Prop where
  | listed {entries : List Entry} {records : List Record} {failure : Option Failure} :
      t.api.list t.rootUrl = .ok entries →
      ExpandsEntries t.api (entries.head?.map fun e => parentPath e.path) entries records failure →
      Expands t records failure
  | unlisted {f : Failure} : t.api.list t.rootUrl = .error f → Expands t [] (some f)

namespace ExpandsEntries

variable {api : ContentsApi} {rootPath : Option String} {a b : List Entry} {e : Entry} {rest : List Entry}
  {records more : List Record} {failure : Option Failure}

/-- entries after others expand to their records after the others' -/
theorem append (ha : ExpandsEntries api rootPath a records none) (hb : ExpandsEntries api rootPath b more failure) :
    ExpandsEntries api rootPath (a ++ b) (records ++ more) failure := by
  generalize hn : none = f at ha
  induction ha with
  | nil => exact hb
  | file hk hu _ ih => exact .file hk hu (ih hn)
  | passed hk hu _ ih => exact .passed hk hu (ih hn)
  | directory hk hl hc _ _ ih =>
    rw [List.cons_append, List.cons_append, List.append_assoc]
    exact .directory hk hl hc (ih hn)
  | broken => cases hn
  | unlisted => cases hn

/-- entries after a failure expand to nothing -/
theorem append_of_failure {f : Failure} (ha : ExpandsEntries api rootPath a records (some f)) (b : List Entry) :
    ExpandsEntries api rootPath (a ++ b) records (some f) := by
  generalize hs : some f = g at ha
  induction ha with
  | nil => cases hs
  | file hk hu _ ih => exact .file hk hu (ih hs)
  | passed hk hu _ ih => exact .passed hk hu (ih hs)
  | directory hk hl hc _ _ ih => exact .directory hk hl hc (ih hs)
  | broken hk hl hc _ => exact .broken hk hl hc
  | unlisted hk hl => exact .unlisted hk hl

theorem of_file {url : String} (h : ExpandsEntries api rootPath (e :: rest) records failure) (hk : e.kind = "file")
    (hu : e.downloadUrl = some url) :
    ∃ records', records = fileRecord rootPath e url :: records' ∧ ExpandsEntries api rootPath rest records' failure := by
  have hd : e.kind ≠ "dir" := by rw [hk]; decide
  cases h with
  | file _ hu' hr => cases hu.symm.trans hu'; exact ⟨_, rfl, hr⟩
  | passed _ hn _ => cases hu.symm.trans (hn hk)
  | directory hk' => exact absurd hk' hd
  | broken hk' => exact absurd hk' hd
  | unlisted hk' => exact absurd hk' hd

/-- a directory with what comes after it is its record, then its listing with what comes after it -/
theorem of_directory (h : ExpandsEntries api rootPath (e :: rest) records failure) (hk : e.kind = "dir") :
    (∃ f, api.list e.url = .error f ∧ records = [] ∧ failure = some f) ∨
      ∃ children records', api.list e.url = .ok children ∧ records = directoryRecord rootPath e :: records' ∧
        ExpandsEntries api rootPath (children ++ rest) records' failure := by
  cases h with
  | file hk' => rw [hk] at hk'; exact absurd hk' (by decide)
  | passed hk' => exact absurd hk hk'
  | directory _ hl hc hr => exact .inr ⟨_, _, hl, rfl, hc.append hr⟩
  | broken _ hl hc => exact .inr ⟨_, _, hl, rfl, hc.append_of_failure rest⟩
  | unlisted _ hl => exact .inl ⟨_, hl, rfl, rfl⟩

/-- entries without a record are left out -/
theorem of_passed (hp : ∀ p ∈ a, ¬ HasRecord p) (h : ExpandsEntries api rootPath (a ++ b) records failure) :
    ExpandsEntries api rootPath b records failure := by
  induction a with
  | nil => exact h
  | cons e a ih =>
    obtain ⟨he, ha⟩ := List.forall_mem_cons.1 hp
    apply ih ha
    cases h with
    | file hk hu => exact absurd (.inr ⟨hk, _, hu⟩) he
    | passed _ _ hr => exact hr
    | directory hk => exact absurd (.inl hk) he
    | broken hk => exact absurd (.inl hk) he
    | unlisted hk => exact absurd (.inl hk) he

end ExpandsEntries

/-! ## Expansion to a depth -/

section

variable {api : ContentsApi} {rootPath : Option String} {e : Entry}

theorem record_of_directory (hk : e.kind = "dir") : record rootPath e = directoryRecord rootPath e := by
  simp [record, directoryRecord, hk]

theorem record_of_file {url : String} (hk : e.kind = "file") (hu : e.downloadUrl = some url) :
    record rootPath e = fileRecord rootPath e url := by
  simp [record, fileRecord, hk, hu]

theorem expandEntries_cons_file {url : String} (hk : e.kind = "file") (hu : e.downloadUrl = some url) (depth : Nat)
    (rest : List Entry) : expandEntries api rootPath depth (e :: rest) =
      (expandEntries api rootPath depth rest).map fun after =>
        ⟨fileRecord rootPath e url :: after.records, after.failure⟩ := by
  have hd : e.kind ≠ "dir" := by rw [hk]; decide
  rw [expandEntries.eq_def]
  dsimp only
  rw [if_neg hd, if_pos (by simp [hk, hu]), record_of_file hk hu]
  rfl

theorem expandEntries_cons_passed (hd : e.kind ≠ "dir") (hn : e.kind = "file" → e.downloadUrl = none) (depth : Nat)
    (rest : List Entry) : expandEntries api rootPath depth (e :: rest) = expandEntries api rootPath depth rest := by
  rw [expandEntries.eq_def]
  dsimp only
  rw [if_neg hd, if_neg (by simpa using hn)]

theorem expandEntries_cons_unlisted {f : Failure} (hk : e.kind = "dir") (hl : api.list e.url = .error f) (depth : Nat)
    (rest : List Entry) : expandEntries api rootPath (depth + 1) (e :: rest) = some ⟨[], some f⟩ := by
  rw [expandEntries, if_pos hk, hl]
  rfl

theorem expandEntries_cons_directory {children : List Entry} (hk : e.kind = "dir") (hl : api.list e.url = .ok children)
    (depth : Nat) (rest : List Entry) : expandEntries api rootPath (depth + 1) (e :: rest) =
      match expandEntries api rootPath depth children with
      | none => none
      | some ⟨below, some f⟩ => some ⟨directoryRecord rootPath e :: below, some f⟩
      | some ⟨below, none⟩ => (expandEntries api rootPath (depth + 1) rest).map fun after =>
          ⟨directoryRecord rootPath e :: (below ++ after.records), after.failure⟩ := by
  rw [expandEntries, if_pos hk, hl]
  dsimp only
  rcases expandEntries api rootPath depth children with _ | ⟨below, _ | f⟩
  · rfl
  · rw [record_of_directory hk]; rfl
  · rw [record_of_directory hk]; rfl

/-- what entries expand to is computed to every depth that is large enough -/
theorem expandEntries_of_expands {entries : List Entry} {records : List Record} {failure : Option Failure}
    (h : ExpandsEntries api rootPath entries records failure) :
    ∃ depth, ∀ d, depth ≤ d → expandEntries api rootPath d entries = some ⟨records, failure⟩ := by
  induction h with
  | nil => exact ⟨0, fun d _ => by rw [expandEntries]; rfl⟩
  | file hk hu _ ih =>
    obtain ⟨depth, ih⟩ := ih
    exact ⟨depth, fun d hle => by rw [expandEntries_cons_file hk hu, ih d hle]; rfl⟩
  | passed hd hn _ ih =>
    obtain ⟨depth, ih⟩ := ih
    exact ⟨depth, fun d hle => by rw [expandEntries_cons_passed hd hn, ih d hle]⟩
  | directory hk hl _ _ ihc ihr =>
    obtain ⟨below, ihc⟩ := ihc
    obtain ⟨after, ihr⟩ := ihr
    refine ⟨max (below + 1) after, fun d hle => ?_⟩
    obtain ⟨d, rfl⟩ : ∃ k, d = k + 1 := ⟨d - 1, by omega⟩
    rw [expandEntries_cons_directory hk hl, ihc d (by omega), ihr (d + 1) (by omega)]
    rfl
  | broken hk hl _ ihc =>
    obtain ⟨below, ihc⟩ := ihc
    refine ⟨below + 1, fun d hle => ?_⟩
    obtain ⟨d, rfl⟩ : ∃ k, d = k + 1 := ⟨d - 1, by omega⟩
    rw [expandEntries_cons_directory hk hl, ihc d (by omega)]
  | unlisted hk hl =>
    refine ⟨1, fun d hle => ?_⟩
    obtain ⟨d, rfl⟩ : ∃ k, d = k + 1 := ⟨d - 1, by omega⟩
    exact expandEntries_cons_unlisted hk hl d _

/-- what is computed to a depth is what entries expand to -/
theorem expands_of_expandEntries {depth : Nat} {entries : List Entry} {l : Listing}
    (h : expandEntries api rootPath depth entries = some l) :
    ExpandsEntries api rootPath entries l.records l.failure := by
  -- on the depth, and at each depth on the entries
  induction depth using Nat.strongRecOn generalizing entries l with
  | _ depth ihd =>
    induction entries generalizing l with
    | nil =>
      rw [expandEntries] at h
      cases h
      exact .nil
    | cons e rest ih =>
      by_cases hk : e.kind = "dir"
      · cases depth with
        | zero =>
          rw [expandEntries, if_pos hk] at h
          cases h
        | succ depth =>
          cases hl : api.list e.url with
          | error f =>
            rw [expandEntries_cons_unlisted hk hl] at h
            cases h
            exact .unlisted hk hl
          | ok children =>
            rw [expandEntries_cons_directory hk hl] at h
            rcases hc : expandEntries api rootPath depth children with _ | ⟨below, _ | f⟩ <;> rw [hc] at h
            · cases h
            · obtain ⟨after, hr, rfl⟩ := Option.map_eq_some_iff.1 h
              exact .directory hk hl (ihd depth depth.lt_succ_self hc) (ih hr)
            · cases h
              exact .broken hk hl (ihd depth depth.lt_succ_self hc)
      · by_cases hf : e.kind = "file" ∧ ∃ url, e.downloadUrl = some url
        · obtain ⟨hf, url, hu⟩ := hf
          rw [expandEntries_cons_file hf hu] at h
          obtain ⟨after, hr, rfl⟩ := Option.map_eq_some_iff.1 h
          exact .file hf hu (ih hr)
        · have hn : e.kind = "file" → e.downloadUrl = none := by
            intro hk'
            exact Option.eq_none_iff_forall_ne_some.2 fun url hu => hf ⟨hk', url, hu⟩
          rw [expandEntries_cons_passed hk hn] at h
          exact .passed hk hn (ih h)

/-- a tree expands to what is computed for it to some depth -/
theorem expands_iff (t : RemoteTree) (records : List Record) (failure : Option Failure) :
    t.Expands records failure ↔ ∃ depth, t.expand depth = some ⟨records, failure⟩ := by
  unfold expand
  constructor
  · intro h
    cases h with
    | listed hl hx =>
      obtain ⟨depth, hd⟩ := expandEntries_of_expands hx
      exact ⟨depth, by rw [hl]; exact hd depth (Nat.le_refl _)⟩
    | unlisted hl => exact ⟨0, by rw [hl]; rfl⟩
  · rintro ⟨depth, h⟩
    cases hl : t.api.list t.rootUrl with
    | error f =>
      rw [hl] at h
      cases h
      exact .unlisted hl
    | ok entries =>
      rw [hl] at h
      exact .listed hl (expands_of_expandEntries h)

end

/-! ## The stack of a walk -/

section

variable {api : ContentsApi} {rootPath : Option String} {records : List Record} {failure : Option Failure}

/-- what the search for the next entry with a record finds: none, or one with entries in front that have none -/
def Finds (stack : List (List Entry)) : Option (Entry × List (List Entry)) → Prop
  | none => ∀ p ∈ stack.flatten, ¬ HasRecord p
  | some (e, rest) => HasRecord e ∧ ∃ passed, stack.flatten = passed ++ e :: rest.flatten ∧ ∀ p ∈ passed, ¬ HasRecord p

theorem Finds.cons {e : Entry} (he : ¬ HasRecord e) {entries : List Entry} {outer : List (List Entry)}
    {found : Option (Entry × List (List Entry))} (h : Finds (entries :: outer) found) :
    Finds ((e :: entries) :: outer) found := by
  match found with
  | none => exact List.forall_mem_cons.2 ⟨he, h⟩
  | some (next, rest) =>
    obtain ⟨hnext, passed, hsplit, hpassed⟩ := h
    refine ⟨hnext, e :: passed, ?_, List.forall_mem_cons.2 ⟨he, hpassed⟩⟩
    rw [List.cons_append, ← hsplit]
    rfl

theorem finds_nextEntry (stack : List (List Entry)) : Finds stack (nextEntry stack) := by
  induction stack with
  | nil => exact nofun
  | cons entries outer ih =>
    unfold nextEntry
    induction entries with
    | nil => exact ih
    | cons e rest ihe =>
      unfold nextInListing
      by_cases he : (e.kind = "dir" || (e.kind = "file" && e.downloadUrl.isSome)) = true
      · rw [if_pos he]
        exact ⟨(hasRecord_iff e).1 he, [], rfl, nofun⟩
      · rw [if_neg he]
        exact ihe.cons fun hrecord => he ((hasRecord_iff e).2 hrecord)

/-- what a step of a walk does once the root is listed: it passes over the entries without a record, and then it is over,
or it gives the next entry its record, a directory's when it could be listed, or the failure of that listing -/
inductive Step (api : ContentsApi) (c : Cursor) : WalkItem → Cursor → List Request → Prop where
  | finished : (∀ p ∈ c.stack.flatten, ¬ HasRecord p) → Step api c none { c with stack := [] } []
  | file {passed : List Entry} {e : Entry} {url : String} {rest : List (List Entry)} :
      c.stack.flatten = passed ++ e :: rest.flatten → (∀ p ∈ passed, ¬ HasRecord p) → e.kind = "file" →
      e.downloadUrl = some url → Step api c (some (.ok (fileRecord c.rootPath e url))) { c with stack := rest } []
  | directory {passed children : List Entry} {e : Entry} {rest : List (List Entry)} :
      c.stack.flatten = passed ++ e :: rest.flatten → (∀ p ∈ passed, ¬ HasRecord p) → e.kind = "dir" →
      api.list e.url = .ok children →
      Step api c (some (.ok (directoryRecord c.rootPath e))) { c with stack := children :: rest } [.list e.url]
  | unlisted {passed : List Entry} {e : Entry} {f : Failure} {rest : List (List Entry)} :
      c.stack.flatten = passed ++ e :: rest.flatten → (∀ p ∈ passed, ¬ HasRecord p) → e.kind = "dir" →
      api.list e.url = .error f → Step api c (some (.error f)) .done [.list e.url]

theorem step_nextListed (api : ContentsApi) (c : Cursor) :
    Step api c (nextListed api c).1 (nextListed api c).2.1 (nextListed api c).2.2 := by
  have hfinds := finds_nextEntry c.stack
  unfold nextListed
  cases hfound : nextEntry c.stack with
  | none =>
    rw [hfound] at hfinds
    exact .finished hfinds
  | some found =>
    obtain ⟨e, rest⟩ := found
    rw [hfound] at hfinds
    obtain ⟨he, passed, hsplit, hpassed⟩ := hfinds
    dsimp only
    by_cases hk : e.kind = "dir"
    · rw [if_pos hk]
      cases hl : api.list e.url with
      | error f => exact .unlisted hsplit hpassed hk hl
      | ok children =>
        dsimp only
        rw [record_of_directory hk]
        exact .directory hsplit hpassed hk hl
    · obtain ⟨hf, url, hu⟩ := he.resolve_left hk
      rw [if_neg hk, record_of_file hf hu]
      exact .file hsplit hpassed hf hu

/-- once the root is listed, each call is such a step -/
theorem step_next (api : ContentsApi) {c : Cursor} (hu : c.unlisted = none) :
    Step api c (next api c).1 (next api c).2.1 (next api c).2.2 := by
  have hnext : next api c = nextListed api c := by rw [next, hu]
  rw [hnext]
  exact step_nextListed api c

/-- a walk whose root is listed, and that has not gone on -/
def listedStart (entries : List Entry) : Cursor := ⟨none, entries.head?.map fun e => parentPath e.path, [entries]⟩

theorem next_start {t : RemoteTree} {entries : List Entry} {item : WalkItem} {c : Cursor} {asked : List Request}
    (hl : t.api.list t.rootUrl = .ok entries) (h : next t.api (listedStart entries) = (item, c, asked)) :
    next t.api t.start = (item, c, .list t.rootUrl :: asked) := by
  have h' : nextListed t.api (listedStart entries) = (item, c, asked) := h
  unfold listedStart at h'
  simp only [next, start, hl, h']

theorem next_start_of_error {t : RemoteTree} {f : Failure} (hl : t.api.list t.rootUrl = .error f) :
    next t.api t.start = (some (.error f), .done, [.list t.rootUrl]) := by
  simp only [next, start, hl]

/-- what a call of a walk does: the first one lists the root, and fails with that listing or goes on as a step -/
inductive Call (api : ContentsApi) (c : Cursor) : WalkItem → Cursor → List Request → Prop where
  | step {item : WalkItem} {c' : Cursor} {asked : List Request} :
      c.unlisted = none → Step api c item c' asked → Call api c item c' asked
  | root {root : String} {entries : List Entry} {item : WalkItem} {c' : Cursor} {asked : List Request} :
      c.unlisted = some root → api.list root = .ok entries → Step api (listedStart entries) item c' asked →
      Call api c item c' (.list root :: asked)
  | unlisted {root : String} {f : Failure} :
      c.unlisted = some root → api.list root = .error f → Call api c (some (.error f)) .done [.list root]

theorem call_next (api : ContentsApi) (c : Cursor) : Call api c (next api c).1 (next api c).2.1 (next api c).2.2 := by
  unfold next
  cases hu : c.unlisted with
  | none => exact .step hu (step_nextListed api c)
  | some root =>
    dsimp only
    cases hl : api.list root with
    | error f => exact .unlisted hu hl
    | ok entries => exact .root hu hl (step_nextListed api (listedStart entries))

/-- what is still to come: what the stack expands to, or the whole tree as long as the root is not listed -/
def Remains (api : ContentsApi) (c : Cursor) (records : List Record) (failure : Option Failure) : Prop :=
  match c.unlisted with
  | none => ExpandsEntries api c.rootPath c.stack.flatten records failure
  | some root => Expands ⟨api, root⟩ records failure

theorem remains_of_listed {c : Cursor} (hu : c.unlisted = none)
    (h : ExpandsEntries api c.rootPath c.stack.flatten records failure) : Remains api c records failure := by
  rw [Remains, hu]
  exact h

theorem remains_done : Remains api .done [] none := .nil

/-- once the root is listed, a step takes the first item off what is still to come -/
theorem Step.remains {c c' : Cursor} {item : WalkItem} {asked : List Request} (hs : Step api c item c' asked)
    (hu : c.unlisted = none) (h : ExpandsEntries api c.rootPath c.stack.flatten records failure) :
    ∃ records' failure', Remains api c' records' failure' ∧ item = (Listing.items ⟨records, failure⟩).head? ∧
      Listing.items ⟨records', failure'⟩ = (Listing.items ⟨records, failure⟩).tail := by
  cases hs with
  | finished hp =>
    rw [← List.append_nil c.stack.flatten] at h
    cases h.of_passed hp
    exact ⟨[], none, remains_of_listed hu .nil, rfl, rfl⟩
  | file hsplit hp hk hd =>
    rw [hsplit] at h
    obtain ⟨records', rfl, hr⟩ := (h.of_passed hp).of_file hk hd
    exact ⟨records', failure, remains_of_listed hu hr, rfl, rfl⟩
  | directory hsplit hp hk hl =>
    rw [hsplit] at h
    rcases (h.of_passed hp).of_directory hk with ⟨f, hl', -⟩ | ⟨children', records', hl', rfl, hr⟩
    · cases hl.symm.trans hl'
    · cases hl.symm.trans hl'
      exact ⟨records', failure, remains_of_listed hu hr, rfl, rfl⟩
  | unlisted hsplit hp hk hl =>
    rw [hsplit] at h
    rcases (h.of_passed hp).of_directory hk with ⟨f, hl', rfl, rfl⟩ | ⟨children', records', hl', -⟩
    · cases hl.symm.trans hl'
      exact ⟨[], none, remains_done, rfl, rfl⟩
    · cases hl.symm.trans hl'

/-- a call takes the first item off what is still to come -/
theorem Call.remains {c c' : Cursor} {item : WalkItem} {asked : List Request} (hc : Call api c item c' asked)
    (h : Remains api c records failure) :
    ∃ records' failure', Remains api c' records' failure' ∧ item = (Listing.items ⟨records, failure⟩).head? ∧
      Listing.items ⟨records', failure'⟩ = (Listing.items ⟨records, failure⟩).tail := by
  unfold Remains at h
  cases hc with
  | step hu hs =>
    rw [hu] at h
    exact hs.remains hu h
  | root hu hl hs =>
    rw [hu] at h
    cases h with
    | listed hl' hx =>
      cases hl.symm.trans hl'
      exact hs.remains rfl (by rw [listedStart, List.flatten_singleton]; exact hx)
    | unlisted hl' => cases hl.symm.trans hl'
  | unlisted hu hl =>
    rw [hu] at h
    cases h with
    | listed hl' => cases hl.symm.trans hl'
    | unlisted hl' =>
      cases hl.symm.trans hl'
      exact ⟨[], none, remains_done, rfl, rfl⟩

end

/-! ## Calls -/

/-- what the call after `n` others gives -/
def nth (api : ContentsApi) : Cursor → Nat → WalkItem
  | c, 0 => (next api c).1
  | c, n + 1 => nth api (next api c).2.1 n

/-- the calls of a walk give what is still to come, item by item -/
theorem nth_of_remains {api : ContentsApi} {c : Cursor} {records : List Record} {failure : Option Failure}
    (h : Remains api c records failure) (n : Nat) : nth api c n = (Listing.items ⟨records, failure⟩)[n]? := by
  induction n generalizing c records failure with
  | zero =>
    obtain ⟨_, _, -, hi, -⟩ := (call_next api c).remains h
    rw [nth, hi, List.head?_eq_getElem?]
  | succ n ih =>
    obtain ⟨records', failure', hr, -, ht⟩ := (call_next api c).remains h
    rw [nth, ih hr, ht, List.getElem?_tail]

/-- **A walk is the tree in depth-first pre-order.** When the tree of listings expands to these records, and to that
failure after them if one is given, the calls of a walk give the records one by one, then the failure, and nothing ever
after. -/
theorem nth_eq_expansion (t : RemoteTree) (records : List Record) (failure : Option Failure)
    (h : t.Expands records failure) (n : Nat) :
    nth t.api t.start n = (records.map .ok ++ failure.toList.map .error)[n]? := by
  have hr : Remains t.api t.start records failure := h
  exact nth_of_remains hr n

/-! A directory with a file in it, a submodule, a directory that cannot be listed, and a file that is never reached. -/

def libEntry : Entry := ⟨"dir", "lib", "lib", none, "lib"⟩

def pythonEntry : Entry := ⟨"file", "a.py", "lib/a.py", some "raw", "lib/a.py"⟩

def brokenTree : RemoteTree where
  rootUrl := "top"
  api :=
    { list := fun url =>
        if url = "top" then
          .ok [libEntry, ⟨"submodule", "dep", "dep", none, "dep"⟩, ⟨"dir", "old", "old", none, "old"⟩,
            ⟨"file", "z.py", "z.py", some "raw", "z.py"⟩]
        else if url = "lib" then .ok [pythonEntry]
        else .error (.transfer url "not found")
      download := fun _ => .ok [] }

theorem brokenTree_calls :
    brokenTree.Expands [directoryRecord (some "") libEntry, fileRecord (some "") pythonEntry "raw"]
        (some (.transfer "old" "not found")) ∧
      nth brokenTree.api brokenTree.start 0 = some (.ok (directoryRecord (some "") libEntry)) ∧
      nth brokenTree.api brokenTree.start 1 = some (.ok (fileRecord (some "") pythonEntry "raw")) ∧
      nth brokenTree.api brokenTree.start 2 = some (.error (.transfer "old" "not found")) ∧
      nth brokenTree.api brokenTree.start 3 = none := by
  have hl : ExpandsEntries brokenTree.api (some "") [pythonEntry]
      [fileRecord (some "") pythonEntry "raw"] none := .file rfl rfl .nil
  have h : brokenTree.Expands [directoryRecord (some "") libEntry, fileRecord (some "") pythonEntry "raw"]
      (some (.transfer "old" "not found")) :=
    .listed rfl (.directory rfl rfl hl (.passed (by decide) (by decide) (.unlisted rfl rfl)))
  have hn := nth_eq_expansion brokenTree _ _ h
  exact ⟨h, hn 0, hn 1, hn 2, hn 3⟩

end ImportHarvest.RemoteTree

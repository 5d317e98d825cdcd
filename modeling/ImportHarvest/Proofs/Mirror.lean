import ImportHarvest.Proofs.Counts
import ImportHarvest.Proofs.Members
/-!
A repository and a directory that hold the same tree are walked alike.

Both walks give the members of the tree one by one, whatever the world does meanwhile, so what is left of a walk is known
at every point of it (`Script`), and with it what a run of any filter sees (`Script.walk`). Records that stand for the
same member have the same fate and give the same text (`SameSight.fateOf_eq`, `selection_of_same`), so the two runs take
the same files in the same order and count the same (`walks_agree`). Only the paths that they show are their own, and
with them the octets of the headers.
-/

namespace ImportHarvest

open Text

/-! ## Walks that are known beforehand -/

/-- what a run sees of a record: the content of its file when the filter wants it -/
def Filter.look (f : Filter) (s : Sight) : Sight := if f.wants s.1 then s else (s.1, [])

section

variable {filter : Filter}

theorem fateOf_look (s : Sight) : fateOf filter (filter.look s) = fateOf filter s := by
  unfold Filter.look
  split
  · rfl
  · rename_i hw
    rw [fateOf_eq, fateOf_eq]
    cases hv : filter.verdict s.1 with
    | taken => exact absurd ((filter.verdict_eq_taken s.1).1 hv) hw
    | _ => rfl

theorem selection_look (seen : List Sight) : selection filter (seen.map filter.look) = selection filter seen := by
  induction seen with
  | nil => rfl
  | cons s seen ih =>
    rw [List.map_cons, selection_cons, selection_cons filter s, ih]
    congr 1
    unfold Filter.look
    cases hw : filter.wants s.1 with
    | true => rfl
    | false =>
      obtain ⟨r, content⟩ := s
      exact (selection_of_not_wanted hw []).trans (selection_of_not_wanted hw content).symm

/-- the contents that a run does not see make no difference to what it counts -/
theorem tally_look (seen : List Sight) : tally filter (seen.map filter.look) = tally filter seen := by
  simp only [tally, countOf, List.countP_map, Function.comp_def, fateOf_look, selection_look]

end

section

variable {τ : Type} [Sink τ] {source : TreeSource τ} {u : Sink.Unlimited τ}

/-- what is left of a walk is known at every cursor, and the source gives it in every world whose output takes
everything -/
structure Script (source : TreeSource τ) (u : Sink.Unlimited τ) where
  left : source.Cursor → List Sight → Prop
  ends : ∀ c (w : World τ), left c [] → u.accepts w.output → ∃ c₁ asked, source.next c w = (none, c₁, asked)
  gives : ∀ c (w : World τ) s rest, left c (s :: rest) → u.accepts w.output →
    ∃ c₁ asked, source.next c w = (some (.ok s.1), c₁, asked) ∧ left c₁ rest ∧
      ∀ w' : World τ, u.accepts w'.output → s.1.isDir = false →
        ∃ asked', source.read s.1 c₁ w' = (.ok s.2, c₁, asked')

/-- a run goes through what is left, and sees the contents of the files that it wants -/
theorem Script.givesAll (k : Script source u) (filter : Filter) {seen : List Sight} {c : source.Cursor} {w : World τ}
    (h : k.left c seen) (hu : u.accepts w.output) :
    ∃ c₁ w₁ c₂ w₂, GivesAll source filter c w (seen.map filter.look) c₁ w₁ ∧
      Ends source filter c₁ w₁ .finished c₂ w₂ := by
  induction seen generalizing c w with
  | nil =>
    obtain ⟨c₁, asked, hn⟩ := k.ends c w h hu
    exact ⟨c, w, _, _, .nil, .finished hn⟩
  | cons s seen ih =>
    obtain ⟨c', asked, hn, hleft, hread⟩ := k.gives c w s seen h hu
    rw [List.map_cons]
    cases hw : filter.wants s.1 with
    | false =>
      obtain ⟨c₁, w₁, c₂, w₂, hg, he⟩ := ih (w := w.request asked) hleft hu
      rw [Filter.look, if_neg (by simp [hw])]
      exact ⟨c₁, w₁, c₂, w₂, .cons (.passed hn hw) hg, he⟩
    | true =>
      obtain ⟨asked', hr⟩ := hread ((w.request asked).process s.1) hu (wants_eq_true.1 hw).1
      have hfirst := Gives.read hn hw hr
      obtain ⟨c₁, w₁, c₂, w₂, hg, he⟩ := ih hleft (hfirst.held u.toTaking hu).1
      rw [Filter.look, if_pos hw]
      exact ⟨c₁, w₁, c₂, w₂, .cons hfirst hg, he⟩

theorem Script.walk (k : Script source u) (filter : Filter) {seen : List Sight} {w : World τ}
    (h : k.left (source.start w) seen) (hu : u.accepts w.output) :
    Walk source filter w (seen.map filter.look) .finished :=
  k.givesAll filter h hu

/-- what a run over a known walk counts and writes -/
theorem Script.aggregate (k : Script source u) (filter : Filter) {seen : List Sight} {w : World τ}
    (h : k.left (source.start w) seen) (hu : u.accepts w.output) {steps : Nat} (hs : seen.length < steps) :
    ∃ after, ImportHarvest.aggregate steps source filter w = some (.ok (tally filter seen), after) ∧
      u.held after.output = u.held w.output ++ utf8Of (blocks (selection filter seen)) := by
  obtain ⟨after, ha, hheld⟩ := aggregate_of_finished u hu (k.walk filter h hu) (by rwa [List.length_map])
  rw [tally_look] at ha
  rw [selection_look] at hheld
  exact ⟨after, ha, hheld⟩

/-- the walk of a repository that expands without a failure is known -/
def RemoteTree.script (t : RemoteTree) (u : Sink.Unlimited τ) : Script t.source u where
  left := fun c rest => RemoteTree.Remains t.api c (rest.map Prod.fst) none ∧
    ∀ s ∈ rest, s.1.isDir = false → (RemoteTree.read t.api s.1).1 = .ok s.2
  ends := by
    rintro c w ⟨h, -⟩ -
    obtain ⟨records', failure', -, hitem, -⟩ := (RemoteTree.call_next _ _).remains h
    exact ⟨_, _, Prod.ext hitem rfl⟩
  gives := by
    rintro c w s rest ⟨h, hread⟩ -
    obtain ⟨records', failure', hrest, hitem, htail⟩ := (RemoteTree.call_next _ _).remains h
    refine ⟨(RemoteTree.next t.api c).2.1, (RemoteTree.next t.api c).2.2, Prod.ext hitem rfl, ⟨?_, ?_⟩, ?_⟩
    · have hitems : Listing.items ⟨records', failure'⟩ = (rest.map Prod.fst).map .ok := by
        rw [htail]
        simp [Listing.items]
      obtain ⟨rfl, rfl⟩ := Listing.of_items hitems
      exact hrest
    · exact fun s' hs' => hread s' (List.mem_cons_of_mem _ hs')
    · intro w' _ hf
      exact ⟨_, Prod.ext (hread s (List.mem_cons_self ..) hf) rfl⟩

/-- the walk of a directory is known as long as the disk behind the output holds the same tree -/
def LocalTree.script (t : LocalTree) (u : Sink.Unlimited τ) (disk : τ → Disk) {children : List (String × Node)}
    (h : ∀ s, u.accepts s → t.Presents (disk s) children) : Script (t.sourceOn disk) u where
  left := fun c rest => c = rest.map (fun s => .ok s.1) ∧
    ∀ s ∈ rest, s.1.isDir = false → ∀ d, t.Presents d children → LocalTree.read d s.1 = .ok s.2
  ends := by
    rintro c w ⟨rfl, -⟩ -
    exact ⟨_, _, rfl⟩
  gives := by
    rintro c w s rest ⟨rfl, hread⟩ -
    refine ⟨rest.map fun s => .ok s.1, [], rfl, ⟨rfl, fun s' hs' => hread s' (List.mem_cons_of_mem _ hs')⟩, ?_⟩
    intro w' hu hf
    exact ⟨[], Prod.ext (hread s (List.mem_cons_self ..) hf _ (h _ hu)) rfl⟩

end

/-! ## The same records -/

/-- records that agree in all but where they are shown and read from, with the same content -/
structure SameSight (s s' : Sight) : Prop where
  relativePath : s.1.relativePath = s'.1.relativePath
  name : s.1.name = s'.1.name
  isDir : s.1.isDir = s'.1.isDir
  content : s.2 = s'.2

/-- files that agree in all but where they are shown and read from, with the same text -/
structure SameFile (f f' : Record × String) : Prop where
  relativePath : f.1.relativePath = f'.1.relativePath
  name : f.1.name = f'.1.name
  text : f.2 = f'.2

/-- records that stand for the same member agree -/
theorem Shows.same {s s' : Sight} {m : Member} (h : Shows s m) (h' : Shows s' m) : SameSight s s' where
  relativePath := h.relativePath.trans h'.relativePath.symm
  name := h.name.trans h'.name.symm
  isDir := h.isDir.trans h'.isDir.symm
  content := h.content.trans h'.content.symm

section

variable {filter : Filter} {s s' : Sight} {a b : List Sight}

theorem SameSight.verdict_eq (h : SameSight s s') : filter.verdict s.1 = filter.verdict s'.1 := by
  rw [Filter.verdict, Filter.verdict, h.isDir, h.name, h.relativePath]

theorem SameSight.bodyOf_eq (h : SameSight s s') : bodyOf s.1 s.2 = bodyOf s'.1 s'.2 := by
  rw [bodyOf, bodyOf, Record.isNotebook, Record.isNotebook, h.name, h.content]

theorem SameSight.fateOf_eq (h : SameSight s s') : fateOf filter s = fateOf filter s' := by
  rw [ImportHarvest.fateOf_eq, ImportHarvest.fateOf_eq, h.verdict_eq, h.bodyOf_eq]

/-- the same files are selected, with the same texts -/
theorem selection_of_same (h : List.Forall₂ SameSight a b) :
    List.Forall₂ SameFile (selection filter a) (selection filter b) := by
  refine List.rel_filterMap ?_ h
  rintro ⟨r, content⟩ ⟨r', content'⟩ hs
  have hv : filter.verdict r = filter.verdict r' := hs.verdict_eq
  have hb : bodyOf r content = bodyOf r' content' := hs.bodyOf_eq
  dsimp only
  rw [hv, hb]
  split
  · cases bodyOf r' content' with
    | none => exact .none
    | some body => exact .some ⟨hs.relativePath, hs.name, rfl⟩
  · exact .none

theorem countP_of_same (p : Fate → Bool) (h : List.Forall₂ SameSight a b) :
    a.countP (fun s => p (fateOf filter s)) = b.countP (fun s => p (fateOf filter s)) := by
  induction h with
  | nil => rfl
  | cons hs _ ih => rw [List.countP_cons, List.countP_cons, ih, hs.fateOf_eq]

/-- the same is counted, but for the octets -/
theorem tally_of_same (h : List.Forall₂ SameSight a b) :
    { tally filter a with bytesWritten := 0 } = { tally filter b with bytesWritten := 0 } := by
  have hseen : (tally filter a).filesSeen = (tally filter b).filesSeen :=
    countP_of_same (fun fate => decide (fate ≠ .directory)) h
  have hfate : ∀ fate, countOf filter fate a = countOf filter fate b := fun fate =>
    countP_of_same (fun other => decide (other = fate)) h
  simp only [hseen]
  simp only [tally, hfate]

end

/-! ## One tree, walked twice -/

/-- **The two walks agree.** When a repository presents a tree of directories and files, at whatever path of it, and the
paths of the tree's members below a local root are ones that a file system takes, then the walk of the repository and
that of any directory on disk that holds the tree give records that agree one by one in relative path, name and kind, and
in the content that is read. So for every filter, and outputs that take everything, a run of the one and a run of the
other take the same files in the same order with the same texts, and count the same but for the octets. -/
theorem walks_agree (children : List (String × Node)) (hp : Proper children) (remote : RemoteTree) (path : String)
    (hremote : remote.Presents path children) (t : LocalTree)
    (hreach : LocalTree.InReach t.root (Node.childMembers [] children)) :
    ∃ theirs ours : List Sight, List.Forall₂ SameSight theirs ours ∧
      (∀ n, RemoteTree.nth remote.api remote.start n = (theirs.map fun s => .ok s.1)[n]?) ∧
      (∀ s ∈ theirs, s.1.isDir = false → (RemoteTree.read remote.api s.1).1 = .ok s.2) ∧
      (∀ d, t.Presents d children → t.walk d = ⟨ours.map Prod.fst, none⟩ ∧
        ∀ s ∈ ours, s.1.isDir = false → LocalTree.read d s.1 = .ok s.2) ∧
      ∀ (filter : Filter) (τ τ' : Type) [Sink τ] [Sink τ'] (u : Sink.Unlimited τ) (u' : Sink.Unlimited τ')
        (disk : τ' → Disk) (w : World τ) (w' : World τ') (steps : Nat), u.accepts w.output → u'.accepts w'.output →
        (∀ s, u'.accepts s → t.Presents (disk s) children) → theirs.length < steps →
        ∃ stats stats' after after',
          aggregate steps remote.source filter w = some (.ok stats, after) ∧
          aggregate steps (t.sourceOn disk) filter w' = some (.ok stats', after') ∧
          List.Forall₂ SameFile (selection filter theirs) (selection filter ours) ∧
          u.held after.output = u.held w.output ++ utf8Of (blocks (selection filter theirs)) ∧
          u'.held after'.output = u'.held w'.output ++ utf8Of (blocks (selection filter ours)) ∧
          { stats with bytesWritten := 0 } = { stats' with bytesWritten := 0 } := by
  obtain ⟨theirs, hx, hshows, hserved⟩ := hremote.expands hp
  have hplain : Plain children := by
    obtain ⟨_, _, hlists⟩ := hremote
    exact hlists.plain
  let ours := (Node.childMembers [] children).map (LocalTree.sightOf t.root)
  have hsame : List.Forall₂ SameSight theirs ours := by
    rw [List.forall₂_map_right_iff]
    exact hshows.imp fun s m hs => hs.same (LocalTree.shows_sightOf t.root m)
  have hread : ∀ d, t.Presents d children → ∀ s ∈ ours, s.1.isDir = false → LocalTree.read d s.1 = .ok s.2 := by
    intro d hd s hs hf
    obtain ⟨m, hm, rfl⟩ := List.mem_map.1 hs
    exact hd.read hplain hp hreach hm hf
  have hwalk : ∀ d, t.Presents d children → t.walk d = ⟨ours.map Prod.fst, none⟩ := by
    intro d hd
    rw [hd.walk hplain hreach, List.map_map]
    rfl
  refine ⟨theirs, ours, hsame, ?_, hserved, fun d hd => ⟨hwalk d hd, hread d hd⟩, ?_⟩
  · intro n
    have hr : RemoteTree.Remains remote.api remote.start (theirs.map Prod.fst) none := hx
    rw [RemoteTree.nth_of_remains hr n]
    simp [Listing.items, Function.comp_def]
  · intro filter τ τ' _ _ u u' disk w w' steps hu hu' hdisk hsteps
    obtain ⟨after, ha, hheld⟩ := (remote.script u).aggregate filter ⟨hx, hserved⟩ hu hsteps
    have hleft : (t.script u' disk hdisk).left ((t.sourceOn disk).start w') ours := by
      refine ⟨?_, fun s hs hf d hd => hread d hd s hs hf⟩
      change (t.walk (disk w'.output)).items = _
      rw [hwalk _ (hdisk _ hu')]
      simp [Listing.items, Function.comp_def]
    obtain ⟨after', ha', hheld'⟩ := (t.script u' disk hdisk).aggregate filter hleft hu' (hsame.length_eq ▸ hsteps)
    exact ⟨_, _, after, after', ha, ha', selection_of_same hsame, hheld, hheld', tally_of_same hsame⟩

/-! A directory with a Python file in it and a text file beside it, at `src` in a repository and at the top of a disk. -/

def packageTree : List (String × Node) :=
  [("pkg", .directory [("a.py", .file (utf8Of "import os\n"))]), ("notes.txt", .file [])]

def packageRepository : RemoteTree where
  rootUrl := "src"
  api :=
    { list := fun url =>
        if url = "src" then
          .ok [⟨"dir", "pkg", "src/pkg", none, "pkg"⟩, ⟨"file", "notes.txt", "src/notes.txt", some "notes", "notes.txt"⟩]
        else if url = "pkg" then .ok [⟨"file", "a.py", "src/pkg/a.py", some "a", "a.py"⟩]
        else .error (.transfer url "not found")
      download := fun url => .ok (if url = "a" then utf8Of "import os\n" else []) }

theorem packageTree_walked_alike :
    Proper packageTree ∧ packageRepository.Presents "src" packageTree ∧
      LocalTree.InReach "." (Node.childMembers [] packageTree) ∧
      LocalTree.Presents ⟨".", false⟩ ⟨packageTree, []⟩ packageTree ∧
      ∃ theirs ours : List Sight, List.Forall₂ SameSight theirs ours ∧
        (∀ n, RemoteTree.nth packageRepository.api packageRepository.start n = (theirs.map fun s => .ok s.1)[n]?) ∧
        LocalTree.walk ⟨".", false⟩ ⟨packageTree, []⟩ = ⟨ours.map Prod.fst, none⟩ ∧
        ∃ stats stats' after after',
          aggregate (theirs.length + 1) packageRepository.source pythonFilter { output := LimitedSink.unlimited } =
            some (.ok stats, after) ∧
          aggregate (theirs.length + 1) (LocalTree.sourceOn (fun _ => ⟨packageTree, []⟩) ⟨".", false⟩) pythonFilter
            { output := LimitedSink.unlimited } = some (.ok stats', after') ∧
          { stats with bytesWritten := 0 } = { stats' with bytesWritten := 0 } := by
  have hproper : Proper packageTree := by
    refine .cons ⟨by decide, by decide, by decide, by decide, by decide⟩ (by decide) ?_
      (.cons ⟨by decide, by decide, by decide, by decide, by decide⟩ (by decide) (by simp) .nil)
    rintro children ⟨⟩
    exact .cons ⟨by decide, by decide, by decide, by decide, by decide⟩ (by decide) (by simp) .nil
  have hremote : packageRepository.Presents "src" packageTree :=
    ⟨_, rfl, .directory rfl rfl (by decide) rfl (.file rfl rfl (by decide) rfl rfl .nil)
      (.file rfl rfl (by decide) rfl rfl .nil)⟩
  have hreach : LocalTree.InReach "." (Node.childMembers [] packageTree) := by
    intro m hm
    simp only [packageTree, Node.childMembers, Node.members, List.nil_append, List.append_nil, List.cons_append,
      List.mem_cons, List.not_mem_nil, or_false] at hm
    rcases hm with rfl | rfl | rfl <;> rfl
  have hdisk : LocalTree.Presents ⟨".", false⟩ ⟨packageTree, []⟩ packageTree := ⟨[], Disk.maxLinks, rfl⟩
  obtain ⟨theirs, ours, hsame, hnth, -, hwalk, hruns⟩ :=
    walks_agree packageTree hproper packageRepository "src" hremote ⟨".", false⟩ hreach
  obtain ⟨stats, stats', after, after', ha, ha', -, -, -, hstats⟩ := hruns pythonFilter _ _ LimitedSink.takesAll
    LimitedSink.takesAll (fun _ => ⟨packageTree, []⟩) { output := .unlimited } { output := .unlimited } _ ⟨rfl, rfl⟩
    ⟨rfl, rfl⟩ (fun _ _ => hdisk) theirs.length.lt_succ_self
  exact ⟨hproper, hremote, hreach, hdisk, theirs, ours, hsame, hnth, (hwalk _ hdisk).1, stats, stats', after, after',
    ha, ha', hstats⟩

/-! A directory whose path is long enough that the path of its file is too long. -/

def toolTree : List (String × Node) := [("a.py", .file (utf8Of "import os\n"))]

def toolRepository : RemoteTree where
  rootUrl := "top"
  api :=
    { list := fun _ => .ok [⟨"file", "a.py", "a.py", some "a", "a.py"⟩]
      download := fun _ => .ok (utf8Of "import os\n") }

theorem toolTree_unread :
    Proper toolTree ∧ toolRepository.Presents "" toolTree ∧
      LocalTree.Presents ⟨slashes 4094, false⟩ ⟨toolTree, []⟩ toolTree ∧
      ∃ r r', RemoteTree.nth toolRepository.api toolRepository.start 0 = some (.ok r) ∧
        (RemoteTree.read toolRepository.api r).1 = .ok (utf8Of "import os\n") ∧
        LocalTree.walk ⟨slashes 4094, false⟩ ⟨toolTree, []⟩ = ⟨[r'], none⟩ ∧
        LocalTree.read ⟨toolTree, []⟩ r' = .error (.io r'.path .nameTooLong) := by
  have hproper : Proper toolTree :=
    .cons ⟨by decide, by decide, by decide, by decide, by decide⟩ (by decide) (by simp) .nil
  have hresolve := resolve_slashes (d := ⟨toolTree, []⟩) (show 4094 + 1 < Disk.maxPath by decide) rfl
  refine ⟨hproper, ⟨_, rfl, .file rfl rfl (by decide) rfl rfl .nil⟩, ⟨[], Disk.maxLinks, hresolve⟩, _,
    LocalTree.Position.record ⟨slashes 4094, [], [], [[]]⟩ "a.py" false, rfl, rfl, ?_, ?_⟩
  · rw [LocalTree.walk, hresolve]
    simp only [Disk.top, toolTree, LocalTree.walkChildren]
    rfl
  · have hlong : Disk.checkPath (joinPath (slashes 4094) "a.py") = .error .nameTooLong :=
      checkPath_below_slashes (by decide) (by decide)
    rw [LocalTree.read]
    simp only [LocalTree.Position.record, Disk.read, Disk.resolve, hlong]
    rfl

end ImportHarvest

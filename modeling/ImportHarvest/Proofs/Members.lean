import ImportHarvest.Proofs.Paths
import ImportHarvest.Proofs.RemoteWalk
import ImportHarvest.Proofs.Walk
import Mathlib.Data.List.Forall2
/-!
One tree of directories and files, as a repository shows it and as a directory on disk does.

The members of a tree are its directories and files, a directory right before what is below it. A listing service
presents a tree when its listings give the children of each directory in order (`Lists`); the tree of listings then
expands to one record for each member (`expands_of_lists`). A walk on disk gives one record for each member as well
(`walkChildren_of_plain`), and its path leads to the member's content (`follow_of_member`). So there is nothing to say of
one walk against the other but what each of them says of a member.
-/

namespace ImportHarvest

open Text

/-! ## Members -/

/-- a directory or file of a tree: the names that lead to it, and the content of a file -/
structure Member where
  names : List String
  content : Option Octets

mutual
/-- the members of a node that these names lead to -/
def Node.members (names : List String) : Node → List Member
  | .file content => [⟨names, some content⟩]
  | .directory children => ⟨names, none⟩ :: childMembers names children
  | .link _ => []
  | .special _ => []
/-- the members of the children of a directory, in order -/
def Node.childMembers (names : List String) : List (String × Node) → List Member
  | [] => []
  | (name, n) :: rest => n.members (names ++ [name]) ++ childMembers names rest
end

/-- nothing but directories and files, all the way down -/
inductive Plain : List (String × Node) → Prop where
  | nil : Plain []
  | file {name : String} {content : Octets} {rest : List (String × Node)} : Plain rest →
      Plain ((name, .file content) :: rest)
  | directory {name : String} {children rest : List (String × Node)} : Plain children → Plain rest →
      Plain ((name, .directory children) :: rest)

/-- a record with a content that stands for a member of a tree, wherever it is shown and read -/
structure Shows (s : Sight) (m : Member) : Prop where
  relativePath : s.1.relativePath = join "/" m.names
  name : s.1.name = m.names.getLastD ""
  isDir : s.1.isDir = m.content.isNone
  content : s.2 = m.content.getD []

/-! ## Relative paths -/

/-- a repository path with a name added to it -/
def childPath (path name : String) : String := if path = "" then name else path ++ "/" ++ name

theorem childPath_ne_empty {path name : String} (h : name ≠ "") : childPath path name ≠ "" := by
  unfold childPath
  split
  · exact h
  · intro he
    rw [← String.toList_inj] at he
    simp at he

/-- names that are added to a path one by one are added to it joined -/
theorem foldl_childPath (start : String) {names : List String} (h : names ≠ []) (hn : ∀ name ∈ names, PathName name) :
    names.foldl childPath start = childPath start (join "/" names) := by
  refine foldl_join ?_ h hn
  intro names name hnil hn
  rw [join_concat hnil, childPath, if_neg (childPath_ne_empty (join_ne_empty hnil hn))]
  unfold childPath
  split
  · rfl
  · simp only [String.append_assoc]

namespace RemoteTree

/-- a path below the root is seen from there as what was added to the root -/
theorem relativePath_childPath {start rel : String} {c : Char} {rest : List Char} (hrel : rel.toList = c :: rest)
    (hc : c ≠ '/') : relativePath (some start) (childPath start rel) = rel := by
  by_cases hs : start = ""
  · simp [relativePath, childPath, hs]
  · have hdrop : dropStart? start.toList (start ++ "/" ++ rel).toList = some ('/' :: c :: rest) := by
      rw [dropStart?_eq_some, String.toList_append, String.toList_append, hrel, List.append_assoc]
      rfl
    have hne : start.isEmpty = false := by simpa using hs
    rw [relativePath, childPath, if_neg hs]
    simp only [hne, hdrop, Bool.false_eq_true, if_false]
    rw [List.dropWhile_cons_of_pos (by simp), List.dropWhile_cons_of_neg (by simpa using hc), ← hrel,
      String.ofList_toList]

theorem relativePath_of_names (start : String) {names : List String} (h : names ≠ [])
    (hn : ∀ name ∈ names, PathName name) : relativePath (some start) (names.foldl childPath start) = join "/" names := by
  obtain ⟨c, rest, hrel, hc⟩ := head_join h hn
  rw [foldl_childPath start h hn]
  exact relativePath_childPath hrel hc

/-- the root is told from the path of its first entry -/
theorem parentPath_childPath {start name : String} (hn : '/' ∉ name.toList) :
    parentPath (childPath start name) = start := by
  have hlast : pieces '/' name.toList = [name.toList] := pieces_of_not_mem hn
  by_cases hs : start = ""
  · simp [parentPath, childPath, hs, hlast]
  · have hpieces : pieces '/' (start ++ "/" ++ name).toList = pieces '/' start.toList ++ [name.toList] := by
      rw [String.toList_append, String.toList_append, List.append_assoc, ← hlast]
      exact pieces_append _ _
    rw [parentPath, childPath, if_neg hs, hpieces, List.dropLast_concat]
    split
    · rename_i hnil
      exact absurd hnil (pieces_ne_nil _ _)
    · rw [glue_pieces, String.ofList_toList]

/-! ## Listings -/

/-- the service presents these children of the directory at a repository path: for each of them an entry, in order, a
file's with an address that serves its content, and a directory's with one that lists its children -/
inductive Lists (api : ContentsApi) : String → List (String × Node) → List Entry → Prop where
  | nil {path : String} : Lists api path [] []
  | file {path name url : String} {content : Octets} {e : Entry} {rest : List (String × Node)}
      {entries : List Entry} : e.kind = "file" → e.name = name → e.path = childPath path name →
      e.downloadUrl = some url → api.download url = .ok content → Lists api path rest entries →
      Lists api path ((name, .file content) :: rest) (e :: entries)
  | directory {path name : String} {e : Entry} {children rest : List (String × Node)} {below entries : List Entry} :
      e.kind = "dir" → e.name = name → e.path = childPath path name → api.list e.url = .ok below →
      Lists api (childPath path name) children below → Lists api path rest entries →
      Lists api path ((name, .directory children) :: rest) (e :: entries)

/-- the repository presents a tree whose root is at that path -/
def Presents (t : RemoteTree) (path : String) (children : List (String × Node)) : Prop :=
  ∃ entries, t.api.list t.rootUrl = .ok entries ∧ Lists t.api path children entries

section

variable {api : ContentsApi} {path : String} {cs : List (String × Node)} {entries : List Entry}

theorem Lists.plain (h : Lists api path cs entries) : Plain cs := by
  induction h with
  | nil => exact .nil
  | file _ _ _ _ _ _ ih => exact .file ih
  | directory _ _ _ _ _ _ ihc ihr => exact .directory ihc ihr

/-- listings that present a tree expand to its members, and each file's content is served -/
theorem expands_of_lists {start : String} (h : Lists api path cs entries) (hp : Proper cs) {names : List String}
    (hpath : path = names.foldl childPath start) (hn : ∀ name ∈ names, PathName name) :
    ∃ seen : List Sight, ExpandsEntries api (some start) entries (seen.map Prod.fst) none ∧
      List.Forall₂ Shows seen (Node.childMembers names cs) ∧
      ∀ s ∈ seen, s.1.isDir = false → (read api s.1).1 = .ok s.2 := by
  induction h generalizing names with
  | nil =>
    rw [Node.childMembers]
    exact ⟨[], .nil, .nil, by simp⟩
  | @file path name url content e rest entries hk hname he hu hd _ ih =>
    cases hp with
    | cons hfirst _ _ hrest =>
      obtain ⟨seen, hx, hs, hr⟩ := ih hrest hpath hn
      have hrel : relativePath (some start) e.path = join "/" (names ++ [name]) := by
        rw [← relativePath_of_names start (by simp) (by simpa [or_imp, forall_and] using ⟨hn, hfirst.pathName⟩), he, hpath,
          List.foldl_append, List.foldl_cons, List.foldl_nil]
      have hshows : Shows (fileRecord (some start) e url, content) ⟨names ++ [name], some content⟩ :=
        ⟨hrel, by simp [fileRecord, hname], rfl, rfl⟩
      rw [Node.childMembers, Node.members]
      refine ⟨(fileRecord (some start) e url, content) :: seen, .file hk hu hx, .cons hshows hs, ?_⟩
      rintro s (_ | ⟨_, hm⟩) hf
      · exact hd
      · exact hr s hm hf
  | @directory path name e children rest below entries hk hname he hl _ _ ihc ihr =>
    cases hp with
    | cons hfirst _ hchildren hrest =>
      have hn' : ∀ other ∈ names ++ [name], PathName other := by
        simpa [or_imp, forall_and] using ⟨hn, hfirst.pathName⟩
      have hpath' : childPath path name = (names ++ [name]).foldl childPath start := by
        rw [hpath, List.foldl_append, List.foldl_cons, List.foldl_nil]
      obtain ⟨within, hxc, hsc, hrc⟩ := ihc (hchildren _ rfl) hpath' hn'
      obtain ⟨seen, hx, hs, hr⟩ := ihr hrest hpath hn
      have hrel : relativePath (some start) e.path = join "/" (names ++ [name]) := by
        rw [← relativePath_of_names start (by simp) hn', he, hpath']
      have hshows : Shows (directoryRecord (some start) e, []) ⟨names ++ [name], none⟩ :=
        ⟨hrel, by simp [directoryRecord, hname], rfl, rfl⟩
      rw [Node.childMembers, Node.members]
      refine ⟨(directoryRecord (some start) e, []) :: (within ++ seen), ?_, .cons hshows (List.rel_append hsc hs), ?_⟩
      · rw [List.map_cons, List.map_append]
        exact .directory hk hl hxc hx
      · rintro s (_ | ⟨_, hm⟩) hf
        · cases hf
        · rcases List.mem_append.1 hm with hm | hm
          · exact hrc s hm hf
          · exact hr s hm hf

/-- a repository that presents a tree expands to its members -/
theorem Presents.expands {t : RemoteTree} (h : t.Presents path cs) (hp : Proper cs) :
    ∃ seen : List Sight, t.Expands (seen.map Prod.fst) none ∧ List.Forall₂ Shows seen (Node.childMembers [] cs) ∧
      ∀ s ∈ seen, s.1.isDir = false → (read t.api s.1).1 = .ok s.2 := by
  obtain ⟨entries, hl, hlists⟩ := h
  have hpath : path = List.foldl childPath path [] := rfl
  obtain ⟨seen, hx, hs, hr⟩ := expands_of_lists hlists hp hpath (by simp)
  refine ⟨seen, .listed hl ?_, hs, hr⟩
  -- the root is told from the first entry, and where there is none there is nothing to see
  have hroot : ∀ e ∈ entries.head?, parentPath e.path = path := by
    cases hlists with
    | nil => simp
    | file _ _ he =>
      cases hp with
      | cons hname => simp [he, parentPath_childPath hname.noSlash]
    | directory _ _ he =>
      cases hp with
      | cons hname => simp [he, parentPath_childPath hname.noSlash]
  cases entries with
  | nil =>
    generalize seen.map Prod.fst = records at hx ⊢
    cases hx
    exact .nil
  | cons e rest =>
    rw [List.head?_cons, Option.map_some, hroot e rfl]
    exact hx

end

end RemoteTree

/-! ## Directories -/

namespace LocalTree

/-- the record of a member of a tree below that root, with its content -/
def sightOf (root : String) (m : Member) : Sight where
  fst :=
    { path := m.names.foldl joinPath root
      relativePath := join "/" m.names
      name := m.names.getLastD ""
      isDir := m.content.isNone
      content := .path (m.names.foldl joinPath root) }
  snd := m.content.getD []

theorem shows_sightOf (root : String) (m : Member) : Shows (sightOf root m) m := ⟨rfl, rfl, rfl, rfl⟩

/-- the paths of these members are ones that a file system takes -/
def InReach (root : String) (members : List Member) : Prop :=
  ∀ m ∈ members, Disk.checkPath (m.names.foldl joinPath root) = .ok ()

/-- the directory holds a tree -/
def Presents (t : LocalTree) (d : Disk) (children : List (String × Node)) : Prop :=
  ∃ place budget, d.resolve true t.root = .ok ⟨place, .directory children, budget⟩

section

variable {d : Disk} {budget : Nat} {p : Position} {root : String} {cs : List (String × Node)}

theorem tooLong_of_checkPath {name : String} (h : Disk.checkPath (joinPath p.shown name) = .ok ()) :
    p.tooLong name = false := by
  unfold Disk.checkPath at h
  split at h
  · cases h
  · split at h
    · cases h
    · split at h
      · cases h
      · rename_i hlong
        exact decide_eq_false hlong

theorem record_of_shown (hs : p.shown = p.names.foldl joinPath root) (name : String) {content : Option Octets}
    {isDir : Bool} (hd : content.isNone = isDir) :
    p.record name isDir = (sightOf root ⟨p.names ++ [name], content⟩).1 := by
  simp [Position.record, sightOf, hs, hd]

theorem shown_enter (hs : p.shown = p.names.foldl joinPath root) (name : String) (place : Place) :
    (p.enter name place).shown = (p.enter name place).names.foldl joinPath root := by
  simp [Position.enter, hs]

/-- a walk below a directory gives its members one by one -/
theorem walkChildren_of_plain {followLinks : Bool} (h : Plain cs) (hs : p.shown = p.names.foldl joinPath root)
    (hr : InReach root (Node.childMembers p.names cs)) : walkChildren d followLinks budget p cs =
      ⟨(Node.childMembers p.names cs).map fun m => (sightOf root m).1, none⟩ := by
  induction h generalizing p with
  | nil => rw [walkChildren, Node.childMembers]; rfl
  | @file name content rest _ ih =>
    rw [Node.childMembers] at hr ⊢
    rw [walkChildren, ih hs fun m hm => hr m (List.mem_append_right _ hm), Node.members,
      record_of_shown hs name (show (some content).isNone = false from rfl)]
    rfl
  | @directory name children rest _ _ ihc ihr =>
    rw [Node.childMembers, Node.members] at hr ⊢
    have hlong : p.tooLong name = false := by
      refine tooLong_of_checkPath ?_
      have := hr _ (List.mem_append_left _ (List.mem_cons_self ..))
      rwa [List.foldl_append, ← hs] at this
    rw [walkChildren, ihr hs fun m hm => hr m (List.mem_append_right _ hm), hlong, if_neg Bool.false_ne_true,
      ihc (shown_enter hs name _) fun m hm => hr m (List.mem_append_left _ (List.mem_cons_of_mem _ hm)),
      record_of_shown hs name (show (none : Option Octets).isNone = true from rfl)]
    simp only [List.map_append, List.map_cons]
    rfl

/-- the path of a file leads to its content -/
theorem follow_of_member (h : Plain cs) (hp : Proper cs) (hs : p.shown = p.names.foldl joinPath root)
    (hd : p.Stands d budget) (hat : d.Holds p.place cs) {m : Member}
    (hm : m ∈ Node.childMembers p.names cs) {content : Octets} (hc : m.content = some content) :
    ∃ place, d.follow true Disk.maxLinks (d.start (m.names.foldl joinPath root))
      (Disk.steps (m.names.foldl joinPath root)) = .ok ⟨place, .file content, budget⟩ := by
  induction h generalizing p with
  | nil => simp [Node.childMembers] at hm
  | @file name content' rest _ ih =>
    cases hp with
    | cons hname _ _ hrest =>
      rw [Node.childMembers, Node.members, List.singleton_append, List.mem_cons] at hm
      rcases hm with rfl | hm
      · cases hc
        refine ⟨p.place ++ [name], ?_⟩
        have hl := hd.follow_child hname []
        rw [List.append_nil, hs] at hl
        rw [List.foldl_append, List.foldl_cons, List.foldl_nil, hl, Disk.follow, Disk.advance_name hname,
          hat.head.2]
        rfl
      · exact ih hrest hs hd hat.tail hm
  | @directory name children rest _ _ ihc ihr =>
    cases hp with
    | cons hname _ hchildren hrest =>
      rw [Node.childMembers, Node.members, List.cons_append, List.mem_cons, List.mem_append] at hm
      rcases hm with rfl | hm | hm
      · cases hc
      · have hdir := hat.head.2
        exact ihc (hchildren _ rfl) (shown_enter hs name _) (hd.enter hname hdir) ((hchildren _ rfl).holds hdir) hm
      · exact ihr hrest hs hd hat.tail hm

/-- a walk of a directory that holds a tree gives the tree's members one by one -/
theorem Presents.walk {t : LocalTree} (h : t.Presents d cs) (hc : Plain cs)
    (hr : InReach t.root (Node.childMembers [] cs)) :
    t.walk d = ⟨(Node.childMembers [] cs).map fun m => (sightOf t.root m).1, none⟩ := by
  obtain ⟨place, budget, hd⟩ := h
  rw [LocalTree.walk, hd]
  exact walkChildren_of_plain (p := ⟨t.root, [], place, [place]⟩) hc rfl hr

/-- and each file's content is read at its path -/
theorem Presents.read {t : LocalTree} (h : t.Presents d cs) (hc : Plain cs) (hp : Proper cs)
    (hr : InReach t.root (Node.childMembers [] cs)) {m : Member} (hm : m ∈ Node.childMembers [] cs)
    (hf : (sightOf t.root m).1.isDir = false) : LocalTree.read d (sightOf t.root m).1 = .ok (sightOf t.root m).2 := by
  obtain ⟨place, budget, hd⟩ := h
  obtain ⟨content, hcontent⟩ : ∃ content, m.content = some content := by
    cases hm : m.content with
    | none => simp [sightOf, hm] at hf
    | some content => exact ⟨content, rfl⟩
  have hroot : d.at? place = some (.directory cs) := Disk.at?_of_follow (Disk.follow_of_resolve hd).2
  obtain ⟨place', hl⟩ := follow_of_member (p := ⟨t.root, [], place, [place]⟩) hc hp rfl
    (Position.stands_root hd [] [place]) (hp.holds hroot) hm hcontent
  have hres : d.resolve true (m.names.foldl joinPath t.root) = .ok ⟨place', .file content, budget⟩ := by
    rw [Disk.resolve, hr m hm]
    exact hl
  simp only [LocalTree.read, sightOf, Disk.read, hres, hcontent]
  rfl

end

end LocalTree

end ImportHarvest

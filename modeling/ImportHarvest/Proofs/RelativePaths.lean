import ImportHarvest.Proofs.Members
import ImportHarvest.Proofs.ReachedEntries
/-!
Paths seen from the root.

A walk is told the repository path of its root by nobody: it takes what stands before the last slash of the root's first
entry, of whatever kind that is, and strikes this text off the paths of all records. When every listed path is the
directory's with a name added to it (`ListsUnder`), an entry's path is the root's with the names added that lead to it
(`Reaches.path_eq`), so what the walk takes for the root is the root (`rootPath_of_listsUnder`), and what is left of a
path are the names, put together with slashes (`relativePath_of_reached`). Nothing is asked of the root or of the names
but that these are not empty and hold no slash: they may repeat the root, and directories may list each other without end.
-/

namespace ImportHarvest.RemoteTree

open Text

/-- every listed path is that of the directory with a name added to it, from the repository path of the root down -/
structure ListsUnder (t : RemoteTree) (root : String) : Prop where
  top : ∀ entries, t.api.list t.rootUrl = .ok entries → ∀ e ∈ entries, PathName e.name ∧ e.path = childPath root e.name
  below : ∀ names d children, t.Reaches names d → d.kind = "dir" → t.api.list d.url = .ok children →
    ∀ e ∈ children, PathName e.name ∧ e.path = childPath d.path e.name

section

variable {t : RemoteTree} {root : String} {names : List String} {e : Entry}

theorem Reaches.ne_nil (h : t.Reaches names e) : names ≠ [] := by
  cases h with
  | top => exact List.cons_ne_nil _ _
  | deeper => simp

/-- the last of the names that lead to an entry is its own -/
theorem Reaches.getLast? (h : t.Reaches names e) : names.getLast? = some e.name := by
  cases h with
  | top => rfl
  | deeper => rw [List.getLast?_append]; rfl

theorem Reaches.pathNames (hr : t.Reaches names e) (h : t.ListsUnder root) : ∀ name ∈ names, PathName name := by
  induction hr with
  | top hl he => exact List.forall_mem_singleton.2 (h.top _ hl _ he).1
  | deeper hd hk hl he ih =>
    exact List.forall_mem_append.2 ⟨ih, List.forall_mem_singleton.2 (h.below _ _ _ hd hk hl _ he).1⟩

/-- an entry's path is the root's with the names added that lead to it -/
theorem Reaches.path_eq (hr : t.Reaches names e) (h : t.ListsUnder root) : e.path = names.foldl childPath root := by
  induction hr with
  | top hl he => exact (h.top _ hl _ he).2
  | deeper hd hk hl he ih => rw [(h.below _ _ _ hd hk hl _ he).2, ih, List.foldl_append, List.foldl_cons, List.foldl_nil]

/-- entries under one path are reached by the same names -/
theorem Reaches.names_unique {names' : List String} {e' : Entry} (hr : t.Reaches names e) (hr' : t.Reaches names' e')
    (h : t.ListsUnder root) (hp : e.path = e'.path) : names = names' := by
  have hn := hr.pathNames h
  have hn' := hr'.pathNames h
  apply join_injective hr.ne_nil hr'.ne_nil hn hn'
  calc join "/" names = relativePath (some root) e.path := by
        rw [hr.path_eq h, relativePath_of_names root hr.ne_nil hn]
    _ = relativePath (some root) e'.path := by rw [hp]
    _ = join "/" names' := by rw [hr'.path_eq h, relativePath_of_names root hr'.ne_nil hn']

/-- what a walk takes for the root is the root, as soon as there is something to see from there -/
theorem rootPath_of_listsUnder (hr : t.Reaches names e) (h : t.ListsUnder root) {rootPath : Option String}
    (hk : t.KnownRoot rootPath) : rootPath = some root := by
  obtain ⟨entries, hl, rfl⟩ := hk
  cases entries with
  | nil =>
    -- an empty listing leads nowhere
    have hnone : ∀ names e, ¬ t.Reaches names e := by
      intro names e hr
      induction hr with
      | top hl' he =>
        rw [hl] at hl'
        cases hl'
        cases he
      | deeper _ _ _ _ ih => exact ih
    exact absurd hr (hnone names e)
  | cons first rest =>
    obtain ⟨hname, hpath⟩ := h.top _ hl first List.mem_cons_self
    rw [List.head?_cons, Option.map_some, hpath, parentPath_childPath hname.noSlash]

end

/-- **Paths are seen from the root.** When every listed path is that of the directory with a name added to it, the record
that any call of a walk gives is that of an entry that names lead to, its relative path is these names with slashes
between them, and its own name is the last of them. No other names lead to an entry under that path. The root may have
any path; where its listing is a single file, it is the directory of that file. -/
theorem relativePath_of_reached (t : RemoteTree) (root : String) (h : t.ListsUnder root) (n : Nat) (r : Record)
    (hr : nth t.api t.start n = some (.ok r)) :
    ∃ names e, t.Reaches names e ∧ r = record (some root) e ∧ r.relativePath = join "/" names ∧
      names.getLast? = some r.name ∧ ∀ names' e', t.Reaches names' e' → e'.path = r.path → names' = names := by
  obtain ⟨names, e, rootPath, hreached, hknown, rfl⟩ := reaches_of_nth hr
  obtain rfl := rootPath_of_listsUnder hreached h hknown
  have hrelative : relativePath (some root) e.path = join "/" names := by
    rw [hreached.path_eq h, relativePath_of_names root hreached.ne_nil (hreached.pathNames h)]
  refine ⟨names, e, hreached, rfl, hrelative, hreached.getLast?, ?_⟩
  intro names' e' hreached' hpath
  exact hreached'.names_unique hreached h hpath

/-! An endless tree at `src`: each directory in it holds a link and a directory `src`. -/

def echoTree : RemoteTree where
  rootUrl := "src"
  api :=
    { list := fun url => .ok
        [⟨"symlink", "link", url ++ "/" ++ "link", none, ""⟩, ⟨"dir", "src", url ++ "/" ++ "src", none, url ++ "/" ++ "src"⟩]
      download := fun url => .error (.transfer url "not found") }

theorem echoTree_lists {url : String} {entries : List Entry} (hl : echoTree.api.list url = .ok entries) {e : Entry}
    (he : e ∈ entries) : PathName e.name ∧ e.path = url ++ "/" ++ e.name ∧ (e.kind = "dir" → e.url = e.path) := by
  cases hl
  rcases List.mem_cons.1 he with rfl | he
  · have hname : PathName "link" := by decide
    exact ⟨hname, rfl, by simp⟩
  · obtain rfl := List.mem_singleton.1 he
    have hname : PathName "src" := by decide
    exact ⟨hname, rfl, fun _ => rfl⟩

theorem echoTree_listsUnder : echoTree.ListsUnder "src" where
  top := by
    intro entries hl e he
    obtain ⟨hname, hpath, -⟩ := echoTree_lists hl he
    exact ⟨hname, hpath⟩
  below := by
    intro names d children hd hk hl e he
    -- directories are listed at their paths
    obtain ⟨url, hpath, hurl⟩ : ∃ url, d.path = url ++ "/" ++ d.name ∧ d.url = d.path := by
      cases hd with
      | top hl' hd => exact ⟨_, (echoTree_lists hl' hd).2.1, (echoTree_lists hl' hd).2.2 hk⟩
      | deeper _ _ hl' hd => exact ⟨_, (echoTree_lists hl' hd).2.1, (echoTree_lists hl' hd).2.2 hk⟩
    have hne : d.path ≠ "" := by
      rw [hpath]
      simp [String.append_eq_empty_iff]
    rw [hurl] at hl
    obtain ⟨hname, hchild, -⟩ := echoTree_lists hl he
    exact ⟨hname, by rw [hchild, childPath, if_neg hne]⟩

theorem echoTree_third_call :
    echoTree.ListsUnder "src" ∧
      ∃ r, nth echoTree.api echoTree.start 2 = some (.ok r) ∧ r.path = "src/src/src/src" ∧
        ∃ names e, echoTree.Reaches names e ∧ r = record (some "src") e ∧ r.relativePath = join "/" names ∧
          names.getLast? = some r.name ∧ names = ["src", "src", "src"] := by
  have hcall : nth echoTree.api echoTree.start 2 = some (.ok
      ⟨"src/src/src/src", "src/src/src", "src", true, .url "src/src/src/src"⟩) := rfl
  obtain ⟨names, e, hreached, hr, hrelative, hlast, -⟩ :=
    relativePath_of_reached echoTree "src" echoTree_listsUnder 2 _ hcall
  have hnames : names = ["src", "src", "src"] :=
    join_injective hreached.ne_nil (by decide) (hreached.pathNames echoTree_listsUnder) (by decide)
      (hrelative.symm.trans (by decide))
  exact ⟨echoTree_listsUnder, _, hcall, rfl, names, e, hreached, hr, hrelative, hlast, hnames⟩

end ImportHarvest.RemoteTree

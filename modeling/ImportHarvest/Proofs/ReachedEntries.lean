import ImportHarvest.Proofs.RemoteWalk
/-!
The entries that a walk of a repository may come to.

An entry is reached by the names that lead to it from the root (`Reaches`), through the listings of directories, however
deep and however often these come back to each other. A walk goes through reached entries alone, and once the root is
listed it knows the root by the first entry of that listing (`Underway`). A step keeps this and gives the record of a
reached entry (`Step.underway`), so every call does (`reaches_of_nth`), also of a walk that never ends.
-/

namespace ImportHarvest.RemoteTree

/-- an entry that a walk may come to, with the names that lead to it: it is listed for the root, or for a directory that
is reached -/
inductive Reaches (t : RemoteTree) : List String → Entry → Prop where
  | top {entries : List Entry} {e : Entry} : t.api.list t.rootUrl = .ok entries → e ∈ entries → Reaches t [e.name] e
  | deeper {names : List String} {d e : Entry} {children : List Entry} : Reaches t names d → d.kind = "dir" →
      t.api.list d.url = .ok children → e ∈ children → Reaches t (names ++ [e.name]) e

/-- a path is the root's as the first entry of its listing tells it -/
def KnownRoot (t : RemoteTree) (rootPath : Option String) : Prop :=
  ∃ entries, t.api.list t.rootUrl = .ok entries ∧ rootPath = entries.head?.map fun e => parentPath e.path

/-- a walk is on its way: the root is listed, and what is left are entries that are reached -/
structure Underway (t : RemoteTree) (c : Cursor) : Prop where
  listed : c.unlisted = none
  reached : ∀ e ∈ c.stack.flatten, ∃ names, t.Reaches names e
  rootPath : ∀ e ∈ c.stack.flatten, t.KnownRoot c.rootPath

section

variable {t : RemoteTree} {c c' : Cursor} {item : WalkItem} {asked : List Request}

theorem underway_of_empty (rootPath : Option String) : t.Underway ⟨none, rootPath, []⟩ := ⟨rfl, nofun, nofun⟩

theorem underway_listedStart {entries : List Entry} (hl : t.api.list t.rootUrl = .ok entries) :
    t.Underway (listedStart entries) where
  listed := rfl
  reached := by
    intro e he
    rw [listedStart, List.flatten_singleton] at he
    exact ⟨[e.name], .top hl he⟩
  rootPath := fun _ _ => ⟨entries, hl, rfl⟩

/-- what a step gives: the record of a reached entry, seen from the known root, or the failure of a reached directory -/
def GivesReached (t : RemoteTree) : WalkItem → Prop
  | none => True
  | some (.ok r) => ∃ names e rootPath, t.Reaches names e ∧ t.KnownRoot rootPath ∧ r = record rootPath e
  | some (.error f) => ∃ names e, t.Reaches names e ∧ e.kind = "dir" ∧ t.api.list e.url = .error f

/-- a step goes from reached entries to reached entries -/
theorem Step.underway (h : Step t.api c item c' asked) (hc : t.Underway c) : t.Underway c' ∧ t.GivesReached item := by
  obtain ⟨hlisted, hreached, hroot⟩ := hc
  cases h with
  | finished => exact ⟨⟨hlisted, nofun, nofun⟩, trivial⟩
  | @file passed e url rest hsplit _ hk hu =>
    rw [hsplit] at hreached hroot
    obtain ⟨-, hreached⟩ := List.forall_mem_append.1 hreached
    obtain ⟨⟨names, he⟩, hrest⟩ := List.forall_mem_cons.1 hreached
    have hknown : t.KnownRoot c.rootPath := hroot e (by simp)
    exact ⟨⟨hlisted, hrest, fun _ _ => hknown⟩, names, e, _, he, hknown, (record_of_file hk hu).symm⟩
  | @directory passed children e rest hsplit _ hk hl =>
    rw [hsplit] at hreached hroot
    obtain ⟨-, hreached⟩ := List.forall_mem_append.1 hreached
    obtain ⟨⟨names, he⟩, hrest⟩ := List.forall_mem_cons.1 hreached
    have hknown : t.KnownRoot c.rootPath := hroot e (by simp)
    have hchildren : ∀ child ∈ children, ∃ names, t.Reaches names child :=
      fun child hm => ⟨names ++ [child.name], .deeper he hk hl hm⟩
    refine ⟨⟨hlisted, ?_, fun _ _ => hknown⟩, names, e, _, he, hknown, (record_of_directory hk).symm⟩
    rw [List.flatten_cons]
    exact List.forall_mem_append.2 ⟨hchildren, hrest⟩
  | @unlisted passed e f rest hsplit _ hk hl =>
    rw [hsplit] at hreached
    obtain ⟨names, he⟩ := hreached e (by simp)
    exact ⟨underway_of_empty none, names, e, he, hk, hl⟩

theorem Underway.step (hc : t.Underway c) : Step t.api c (next t.api c).1 (next t.api c).2.1 (next t.api c).2.2 :=
  step_next t.api hc.listed

theorem Underway.nth (hc : t.Underway c) (n : Nat) : t.GivesReached (nth t.api c n) := by
  induction n generalizing c with
  | zero => exact (hc.step.underway hc).2
  | succ n ih => exact ih (hc.step.underway hc).1

/-- the calls of a walk are those after the root is listed -/
theorem nth_start {entries : List Entry} (hl : t.api.list t.rootUrl = .ok entries) (n : Nat) :
    RemoteTree.nth t.api t.start n = RemoteTree.nth t.api (listedStart entries) n := by
  rcases hfirst : next t.api (listedStart entries) with ⟨item, c, asked⟩
  have hnext := next_start hl hfirst
  cases n with
  | zero => rw [RemoteTree.nth, RemoteTree.nth, hnext, hfirst]
  | succ n => rw [RemoteTree.nth, RemoteTree.nth, hnext, hfirst]

/-- a record that a walk gives is that of a reached entry -/
theorem reaches_of_nth {n : Nat} {r : Record} (h : RemoteTree.nth t.api t.start n = some (.ok r)) :
    ∃ names e rootPath, t.Reaches names e ∧ t.KnownRoot rootPath ∧ r = record rootPath e := by
  cases hl : t.api.list t.rootUrl with
  | error f =>
    -- the first call fails, and the others come after the end
    have hdone := (underway_of_empty (t := t) none).nth
    have hnext := next_start_of_error hl
    cases n with
    | zero =>
      rw [RemoteTree.nth, hnext] at h
      cases h
    | succ n =>
      rw [RemoteTree.nth, hnext] at h
      have hgiven := hdone n
      rw [show (⟨none, none, []⟩ : Cursor) = .done from rfl, h] at hgiven
      exact hgiven
  | ok entries =>
    have hgiven := (underway_listedStart hl).nth n
    rw [← nth_start hl, h] at hgiven
    exact hgiven

end

end ImportHarvest.RemoteTree

import ImportHarvest.Proofs.Visits
/-!
The records of a directory on disk.

What stands below a directory are its entries, each before what is below it (`Node.childEntries`): every node that names
lead to (`Proper.lists`), once (`Proper.nodup_entries`), and what is below a directory right behind it
(`Proper.entries_behind`). A walk that does not follow links visits them in this order, and takes records from the
directories, the files, and the links whose paths lead to a file (`listing_of_entries`), so the same holds of its records
(`recordsBelow_of_entries`). No link is gone through on the way, since no names lead through one.
-/

namespace ImportHarvest

open Text

/-! ## Entries -/

namespace Node

mutual
/-- a node under the names that lead to it, and what is below it -/
def entries (names : List String) : Node → List (List String × Node)
  | .directory children => (names, .directory children) :: childEntries names children
  | .file content => [(names, .file content)]
  | .link target => [(names, .link target)]
  | .special kind => [(names, .special kind)]
/-- what is below a directory with these children -/
def childEntries (names : List String) : List (String × Node) → List (List String × Node)
  | [] => []
  | (name, n) :: rest => n.entries (names ++ [name]) ++ childEntries names rest
end

/-- what is below a directory: the nodes that names lead to -/
def Lists (names : List String) (cs : List (String × Node)) : Prop :=
  ∀ names' n, (names', n) ∈ childEntries names cs ↔
    ∃ below, below ≠ [] ∧ names' = names ++ below ∧ (Node.directory cs).at? below = some n

theorem at?_leaf {m n : Node} (hm : ∀ cs, m ≠ .directory cs) {below : Place} :
    m.at? below = some n ↔ below = [] ∧ n = m := by
  cases below with
  | nil => simp [at?, eq_comm]
  | cons name rest =>
    constructor
    · intro h
      obtain ⟨cs, _, rfl, -⟩ := at?_cons_eq_some h
      exact absurd rfl (hm cs)
    · exact fun h => absurd h.1 (List.cons_ne_nil _ _)

theorem entries_leaf {m : Node} (hm : ∀ cs, m ≠ .directory cs) (names : List String) : m.entries names = [(names, m)] := by
  cases m with
  | directory cs => exact absurd rfl (hm cs)
  | _ => rw [entries]

theorem mem_entries {m : Node} {names : List String} (hm : ∀ cs, m = .directory cs → Lists names cs)
    (names' : List String) (n : Node) :
    (names', n) ∈ m.entries names ↔ ∃ below, names' = names ++ below ∧ m.at? below = some n := by
  by_cases hdir : ∃ cs, m = .directory cs
  · obtain ⟨cs, rfl⟩ := hdir
    rw [entries, List.mem_cons, hm cs rfl]
    constructor
    · rintro (h | ⟨below, -, rfl, hat⟩)
      · cases h
        exact ⟨[], by simp, rfl⟩
      · exact ⟨below, rfl, hat⟩
    · rintro ⟨_ | ⟨first, more⟩, rfl, hat⟩
      · cases hat
        exact .inl (by simp)
      · exact .inr ⟨_, List.cons_ne_nil _ _, rfl, hat⟩
  · have hleaf : ∀ cs, m ≠ .directory cs := fun cs he => hdir ⟨cs, he⟩
    simp only [entries_leaf hleaf, at?_leaf hleaf, List.mem_singleton, Prod.mk.injEq]
    constructor
    · rintro ⟨rfl, rfl⟩
      exact ⟨[], by simp, rfl, rfl⟩
    · rintro ⟨below, rfl, rfl, rfl⟩
      exact ⟨by simp, rfl⟩

end Node

section

variable {cs : List (String × Node)}

/-- the first of the names that lead to something below a directory is that of a child -/
theorem mem_of_at?_cons {name : String} {more : List String} {n : Node}
    (h : (Node.directory cs).at? (name :: more) = some n) : name ∈ cs.map Prod.fst := by
  obtain ⟨_, c, hcs, hl, -⟩ := Node.at?_cons_eq_some h
  cases hcs
  obtain ⟨before, after, rfl, -⟩ := List.lookup_eq_some_iff.1 hl
  simp

/-- the names that lead to something below are names of entries -/
theorem Proper.isName_of_at? (h : Proper cs) {names : List String} {n : Node}
    (hat : (Node.directory cs).at? names = some n) :
    ∀ name ∈ names, IsName name := by
  induction names generalizing cs with
  | nil => exact nofun
  | cons first more ih =>
    obtain ⟨_, c, hcs, hl, hc⟩ := Node.at?_cons_eq_some hat
    cases hcs
    obtain ⟨before, after, rfl, -⟩ := List.lookup_eq_some_iff.1 hl
    refine List.forall_mem_cons.2 ⟨h.isName (List.mem_append_right before List.mem_cons_self), ?_⟩
    by_cases hdir : ∃ below, c = .directory below
    · obtain ⟨below, rfl⟩ := hdir
      exact ih (h.children (List.mem_append_right before List.mem_cons_self)) hc
    · obtain ⟨rfl, -⟩ := (Node.at?_leaf fun below he => hdir ⟨below, he⟩).1 hc
      exact nofun

theorem Proper.pathNames (h : Proper cs) {names : List String} {n : Node}
    (hat : (Node.directory cs).at? names = some n) :
    ∀ name ∈ names, PathName name :=
  fun name hm => (h.isName_of_at? hat name hm).pathName

/-- every node that names lead to is an entry, and no other -/
theorem Proper.lists (h : Proper cs) (names : List String) : Node.Lists names cs := by
  induction h generalizing names with
  | nil =>
    intro names' n
    rw [Node.childEntries]
    constructor
    · intro h
      cases h
    · rintro ⟨_ | ⟨first, more⟩, hne, -, hat⟩
      · exact absurd rfl hne
      · cases mem_of_at?_cons hat
  | @cons name m rest _ hnew _ _ ihc ihr =>
    intro names' n
    rw [Node.childEntries, List.mem_append, Node.mem_entries fun cs hm => ihc cs hm _, ihr names names' n]
    constructor
    · rintro (⟨more, rfl, hat⟩ | ⟨below, hne, rfl, hat⟩)
      · exact ⟨name :: more, List.cons_ne_nil _ _, by simp, by simpa [Node.at?, Node.child?] using hat⟩
      · obtain ⟨first, more, rfl⟩ := List.exists_cons_of_ne_nil hne
        have hother : first ≠ name := fun he => hnew (he ▸ mem_of_at?_cons hat)
        refine ⟨first :: more, hne, rfl, ?_⟩
        simpa [Node.at?, Node.child?, List.lookup_cons, beq_false_of_ne hother] using hat
    · rintro ⟨_ | ⟨first, more⟩, hne, rfl, hat⟩
      · exact absurd rfl hne
      · by_cases hfirst : first = name
        · subst hfirst
          exact .inl ⟨more, by simp, by simpa [Node.at?, Node.child?] using hat⟩
        · refine .inr ⟨first :: more, hne, rfl, ?_⟩
          simpa [Node.at?, Node.child?, List.lookup_cons, beq_false_of_ne hfirst] using hat

/-- no names lead to two entries -/
theorem Proper.nodup_entries (h : Proper cs) (names : List String) :
    (Node.childEntries names cs).Pairwise fun a b => a.1 ≠ b.1 := by
  induction h generalizing names with
  | nil =>
    rw [Node.childEntries]
    exact .nil
  | @cons name m rest _ hnew hc hrest ihc ihr =>
    have hentries := Node.mem_entries fun cs hm => (hc cs hm).lists (names ++ [name])
    rw [Node.childEntries, List.pairwise_append]
    refine ⟨?_, ihr names, ?_⟩
    · by_cases hdir : ∃ cs, m = .directory cs
      · obtain ⟨below, rfl⟩ := hdir
        rw [Node.entries, List.pairwise_cons]
        refine ⟨?_, ihc below rfl _⟩
        rintro ⟨names', n⟩ hm heq
        obtain ⟨more, hne, rfl, -⟩ := ((hc below rfl).lists _ _ _).1 hm
        exact hne (List.self_eq_append_right.1 heq)
      · rw [Node.entries_leaf fun cs he => hdir ⟨cs, he⟩]
        exact List.pairwise_singleton _ _
    · -- the names of the one go through the child, those of the other through another
      rintro ⟨names₁, n₁⟩ h₁ ⟨names₂, n₂⟩ h₂ heq
      obtain ⟨more, rfl, -⟩ := (hentries _ _).1 h₁
      obtain ⟨below, hne, rfl, hat⟩ := (hrest.lists names _ _).1 h₂
      obtain ⟨first, after, rfl⟩ := List.exists_cons_of_ne_nil hne
      obtain ⟨rfl, -⟩ : name = first ∧ more = after := by simpa using heq
      exact hnew (mem_of_at?_cons hat)

/-- what is below a directory stands right behind it -/
theorem Proper.entries_behind (h : Proper cs) {names names' : List String} {below : List (String × Node)}
    (hm : (names', .directory below) ∈ Node.childEntries names cs) :
    ∃ before after, Node.childEntries names cs =
      before ++ (names', .directory below) :: Node.childEntries names' below ++ after := by
  induction h generalizing names with
  | nil =>
    rw [Node.childEntries] at hm
    cases hm
  | @cons name m rest _ _ hc _ ihc ihr =>
    rw [Node.childEntries] at hm ⊢
    rcases List.mem_append.1 hm with hm | hm
    · by_cases hdir : ∃ cs, m = .directory cs
      · obtain ⟨children, rfl⟩ := hdir
        rw [Node.entries] at hm ⊢
        rcases List.mem_cons.1 hm with hm | hm
        · cases hm
          exact ⟨[], Node.childEntries names rest, rfl⟩
        · obtain ⟨before, after, heq⟩ := ihc children rfl hm
          exact ⟨(names ++ [name], .directory children) :: before, after ++ Node.childEntries names rest, by
            rw [heq]; simp⟩
      · rw [Node.entries_leaf fun cs he => hdir ⟨cs, he⟩, List.mem_singleton] at hm
        cases hm
        exact absurd ⟨below, rfl⟩ hdir
    · obtain ⟨before, after, heq⟩ := ihr hm
      exact ⟨m.entries (names ++ [name]) ++ before, after, by rw [heq]; simp⟩

end

/-! ## Records -/

theorem filterMap_cons_toList {α β : Type} (f : α → Option β) (a : α) (l : List α) :
    (a :: l).filterMap f = (f a).toList ++ l.filterMap f := by
  rw [List.filterMap_cons]
  cases f a <;> rfl

namespace LocalTree

/-- what an entry is where links are not followed -/
def typeOf : Node → EntryType
  | .file _ => .file
  | .directory _ => .directory
  | .link _ => .link
  | .special _ => .special

/-- whether a walk that does not follow links has a record of a node at that path: a file, a directory, or a link whose
path leads to a file -/
def recorded (d : Disk) (path : String) : Node → Bool
  | .file _ => true
  | .directory _ => true
  | .link _ => d.isFile path
  | .special _ => false

/-- the record of the node that names lead to from the root -/
def recordAt (root : String) (names : List String) (n : Node) : Record where
  path := joinPath root (join "/" names)
  relativePath := join "/" names
  name := names.getLastD ""
  isDir := typeOf n = .directory
  content := .path (joinPath root (join "/" names))

/-- the record of an entry, if it has one -/
def recordOf (d : Disk) (root : String) (e : List String × Node) : Option Record :=
  if recorded d (joinPath root (join "/" e.1)) e.2 then some (recordAt root e.1 e.2) else none

/-- a path that goes on from one without a slash at its end goes on behind a slash -/
theorem joinPath_joinPath (root name : String) {rel : String} {front : List Char} {c : Char}
    (hrel : rel.toList = front ++ [c]) (hc : c ≠ '/') :
    joinPath (joinPath root rel) name = joinPath root (rel ++ "/" ++ name) := by
  obtain ⟨before, hbefore⟩ : ∃ before, (joinPath root rel).toList = before ++ [c] := by
    unfold joinPath
    split
    · exact ⟨root.toList ++ front, by simp [hrel]⟩
    · exact ⟨(root ++ "/").toList ++ front, by rw [String.toList_append, hrel, List.append_assoc]⟩
  have hend : endsWith "/" (joinPath root rel) = false := by
    rw [Bool.eq_false_iff]
    intro h
    rw [endsWith_iff, hbefore] at h
    obtain ⟨more, hmore⟩ := h
    exact hc (by simpa using (congrArg List.getLast? hmore).symm)
  have hempty : (joinPath root rel).isEmpty = false := by
    rw [Bool.eq_false_iff]
    intro h
    rw [String.isEmpty_iff.1 h] at hbefore
    simp at hbefore
  rw [joinPath, hend, hempty, Bool.or_false, if_neg Bool.false_ne_true]
  unfold joinPath
  split <;> simp only [String.append_assoc]

/-- names that are added to a path one by one are added to it joined -/
theorem foldl_joinPath (root : String) {names : List String} (h : names ≠ []) (hn : ∀ name ∈ names, PathName name) :
    names.foldl joinPath root = joinPath root (join "/" names) := by
  refine foldl_join ?_ h hn
  intro names name hnil hn
  obtain ⟨front, c, hlast, hc⟩ := last_join hnil hn
  rw [join_concat hnil, joinPath_joinPath root name hlast hc]

section

variable {d : Disk} {root : String} {budget : Nat} {p : Position} {name : String} {cs : List (String × Node)}

theorem Position.Below.path_eq (h : p.Below root) (hn : IsName name) :
    joinPath p.shown name = joinPath root (join "/" (p.names ++ [name])) := by
  have hnames : ∀ other ∈ p.names ++ [name], PathName other :=
    List.forall_mem_append.2 ⟨fun _ hm => (h.names _ hm).pathName, List.forall_mem_singleton.2 hn.pathName⟩
  rw [← foldl_joinPath root (by simp) hnames, List.foldl_append, ← h.shown]
  rfl

/-- the entry of a child has the record of its node -/
theorem toRecord_node (hs : p.Stands d budget) (hb : p.Below root) (hn : IsName name) {n : Node}
    (hat : d.at? (p.place ++ [name]) = some n) :
    toRecord d.isFileAt (utf8Of root) (p.entry name (typeOf n)) = recordOf d root (p.names ++ [name], n) := by
  have hpath := hb.path_eq hn
  have hrecord (isDir : Bool) : p.record name isDir =
      ⟨joinPath root (join "/" (p.names ++ [name])), join "/" (p.names ++ [name]), name, isDir,
        .path (joinPath root (join "/" (p.names ++ [name])))⟩ := by
    rw [Position.record, hpath]
  rw [toRecord_child hb hn]
  cases n with
  | file content => simp [typeOf, recordOf, recorded, recordAt, hrecord]
  | directory children => simp [typeOf, recordOf, recorded, recordAt, hrecord]
  | link target => simp [typeOf, recordOf, recorded, recordAt, hrecord, hpath]
  | special => simp [typeOf, recordOf, recorded, isFile_special hs hn hat]

/-- a node that is no directory is visited by itself -/
theorem visitChildren_leaf {n : Node} (hn : ∀ cs, n ≠ .directory cs) (d : Disk) (budget : Nat) (p : Position)
    (name : String) (rest : List (String × Node)) : visitChildren d false budget p ((name, n) :: rest) =
      .ok (p.entry name (typeOf n)) :: visitChildren d false budget p rest := by
  cases n with
  | directory cs => exact absurd rfl (hn cs)
  | link target => rw [visitChildren_link]; rfl
  | _ => rw [visitChildren]; rfl

/-- the visits below a directory, where no link is followed and every directory can be listed -/
theorem listing_of_entries (hnul : NulFree d) (h : Proper cs) (hs : p.Stands d budget) (hb : p.Below root)
    (hat : d.Holds p.place cs)
    (hlong : ∀ names below, (names, .directory below) ∈ Node.childEntries p.names cs →
      (utf8Of (joinPath root (join "/" names))).length < Disk.maxPath) :
    listingOf d.isFileAt (utf8Of root) (visitChildren d false budget p cs) =
      ⟨(Node.childEntries p.names cs).filterMap (recordOf d root), none⟩ := by
  induction h generalizing p with
  | nil => rw [visitChildren, Node.childEntries]; rfl
  | @cons name m rest hname _ hc _ ihc ihr =>
    obtain ⟨-, hm⟩ := hat.head
    rw [Node.childEntries] at hlong ⊢
    have hrest := ihr hs hb hat.tail fun names below he => hlong names below (List.mem_append_right _ he)
    have hfirst : listingOf d.isFileAt (utf8Of root) [.ok (p.entry name (typeOf m))] =
        ⟨(recordOf d root (p.names ++ [name], m)).toList, none⟩ := by
      rw [listingOf_singleton, toRecord_node hs hb hname hm]
    rw [List.filterMap_append]
    by_cases hdir : ∃ below, m = .directory below
    · obtain ⟨below, rfl⟩ := hdir
      rw [Node.entries] at hlong ⊢
      have hshort : p.tooLong name = false := by
        have hlt := hlong (p.names ++ [name]) below (by simp)
        rw [← hb.path_eq hname] at hlt
        exact decide_eq_false (Nat.not_le.2 hlt)
      have hinto := ihc below rfl (hs.enter hname hm) (hb.enter hname (hnul.child hm) (p.place ++ [name]))
        ((hc below rfl).holds hm) fun names' below' he =>
          hlong names' below' (List.mem_append_left _ (List.mem_cons_of_mem _ he))
      rw [visitChildren, hshort, if_neg Bool.false_ne_true, listingOf_append, ← List.singleton_append, listingOf_append,
        hinto, hrest, filterMap_cons_toList]
      exact congrArg (fun l : Listing => l ++ _ ++ _) hfirst
    · have hleaf : ∀ below, m ≠ .directory below := fun below he => hdir ⟨below, he⟩
      rw [visitChildren_leaf hleaf, ← List.singleton_append, listingOf_append, hfirst, hrest, Node.entries_leaf hleaf,
        filterMap_cons_toList, List.filterMap_nil, List.append_nil]
      rfl

end

/-! ## The records below a directory -/

/-- the paths of the directories below can be opened -/
def Listable (root : String) (children : List (String × Node)) : Prop :=
  ∀ names below, names ≠ [] → (Node.directory children).at? names = some (.directory below) →
    (utf8Of (joinPath root (join "/" names))).length < Disk.maxPath

theorem listable_of_entries {root : String} {children : List (String × Node)} (hd : Proper children)
    (h : ∀ names below, (names, .directory below) ∈ Node.childEntries [] children →
      (utf8Of (joinPath root (join "/" names))).length < Disk.maxPath) : Listable root children :=
  fun names below hne hat => h names below ((hd.lists [] names _).2 ⟨names, hne, rfl, hat⟩)

/-- these are the records of what stands below a directory: one for each node that has one, and those below a directory
together right behind its own -/
structure RecordsBelow (d : Disk) (root : String) (children : List (String × Node)) (records : List Record) : Prop where
  mem_iff : ∀ r, r ∈ records ↔ ∃ names n, names ≠ [] ∧ (Node.directory children).at? names = some n ∧
    recorded d (joinPath root (join "/" names)) n = true ∧ r = recordAt root names n
  distinct : (records.map Record.relativePath).Nodup
  together : ∀ r ∈ records, r.isDir = true → ∃ before within after, records = before ++ r :: within ++ after ∧
    ∀ q ∈ records, q ∈ within ↔ startsWith (r.relativePath ++ "/") q.relativePath = true

section

variable {d : Disk} {root : String} {cs : List (String × Node)} {names : List String} {n : Node}

theorem recordOf_eq_some {e : List String × Node} {r : Record} :
    recordOf d root e = some r ↔
      recorded d (joinPath root (join "/" e.1)) e.2 = true ∧ r = recordAt root e.1 e.2 := by
  rw [recordOf, Option.ite_none_right_eq_some, Option.some_inj, eq_comm (a := recordAt root e.1 e.2)]

/-- among the records those of what is below a directory go on from its path behind a slash -/
theorem mem_below_iff (h : Proper cs) {below : List (String × Node)} {names' : List String} {n' : Node} {q : Record}
    (hnil : names ≠ []) (hat : (Node.directory cs).at? names = some (.directory below)) (hnil' : names' ≠ [])
    (hat' : (Node.directory cs).at? names' = some n') (hq : recordOf d root (names', n') = some q) :
    q ∈ (Node.childEntries names below).filterMap (recordOf d root) ↔
      startsWith (join "/" names ++ "/") q.relativePath = true := by
  have hlists := (h.at? hat).lists names
  have hgoesOn (more : List String) : (Node.directory cs).at? (names ++ more) = (Node.directory below).at? more := by
    rw [Node.at?_append, hat, Option.bind_some]
  have hpath : q.relativePath = join "/" names' := congrArg Record.relativePath (recordOf_eq_some.1 hq).2
  rw [hpath, startsWith_join_iff hnil hnil' (h.pathNames hat) (h.pathNames hat')]
  constructor
  · intro hwithin
    obtain ⟨⟨other, m⟩, hother, hrecord⟩ := List.mem_filterMap.1 hwithin
    obtain ⟨more, hmore, rfl, hbelow⟩ := (hlists _ _).1 hother
    -- the record has one path, so these names are its own
    have hpath' : q.relativePath = join "/" (names ++ more) := congrArg Record.relativePath (recordOf_eq_some.1 hrecord).2
    rw [← hgoesOn] at hbelow
    exact ⟨more, hmore, join_injective hnil' (by simp [hnil]) (h.pathNames hat') (h.pathNames hbelow)
      (hpath.symm.trans hpath')⟩
  · rintro ⟨more, hmore, rfl⟩
    rw [hgoesOn] at hat'
    exact List.mem_filterMap.2 ⟨_, (hlists _ _).2 ⟨more, hmore, rfl, hat'⟩, hq⟩

/-- the entries below a directory have one record each -/
theorem recordsBelow_of_entries (h : Proper cs) (d : Disk) (root : String) :
    RecordsBelow d root cs ((Node.childEntries [] cs).filterMap (recordOf d root)) where
  mem_iff := by
    intro r
    simp only [List.mem_filterMap, recordOf_eq_some, Prod.exists, h.lists [] _ _, List.nil_append]
    constructor
    · rintro ⟨names, n, ⟨_, hne, rfl, hat⟩, hr, rfl⟩
      exact ⟨names, n, hne, hat, hr, rfl⟩
    · rintro ⟨names, n, hne, hat, hr, rfl⟩
      exact ⟨names, n, ⟨names, hne, rfl, hat⟩, hr, rfl⟩
  distinct := by
    rw [List.Nodup, List.pairwise_map, List.pairwise_filterMap]
    refine (h.nodup_entries []).imp_of_mem ?_
    rintro ⟨names, n⟩ ⟨names', n'⟩ hm hm' hne r hr r' hr' heq
    obtain ⟨-, rfl⟩ := recordOf_eq_some.1 hr
    obtain ⟨-, rfl⟩ := recordOf_eq_some.1 hr'
    obtain ⟨_, hnil, rfl, hat⟩ := (h.lists [] _ _).1 hm
    obtain ⟨_, hnil', rfl, hat'⟩ := (h.lists [] _ _).1 hm'
    exact hne (join_injective hnil hnil' (h.pathNames hat) (h.pathNames hat') heq)
  together := by
    intro r hr hdir
    obtain ⟨⟨names, n⟩, hm, hr⟩ := List.mem_filterMap.1 hr
    obtain ⟨-, rfl⟩ := recordOf_eq_some.1 hr
    obtain ⟨below, rfl⟩ : ∃ below, n = .directory below := by
      cases n with
      | directory below => exact ⟨below, rfl⟩
      | _ => simp [recordAt, typeOf] at hdir
    obtain ⟨before, after, hsplit⟩ := h.entries_behind hm
    refine ⟨before.filterMap (recordOf d root), (Node.childEntries names below).filterMap (recordOf d root),
      after.filterMap (recordOf d root), ?_, ?_⟩
    · rw [hsplit, List.filterMap_append, List.filterMap_append, List.filterMap_cons_some hr]
    · intro q hq
      obtain ⟨⟨names', n'⟩, hm', hq⟩ := List.mem_filterMap.1 hq
      obtain ⟨_, hnil, rfl, hat⟩ := (h.lists [] _ _).1 hm
      obtain ⟨_, hnil', rfl, hat'⟩ := (h.lists [] _ _).1 hm'
      exact mem_below_iff h hnil hat hnil' hat' hq

end

/-- **A directory on disk is walked entry by entry.** On a disk whose names are proper ones without a NUL, a walk that does
not follow links, from a directory below which every directory can be listed, gives the records of what stands below, each
once, those below a directory right behind it, and then nothing ever after; these are the records of the directories, of
the files, and of the links whose paths lead to a file. Whatever the visits are that a walk takes its records from, with
links followed or not, with paths that are texts or not, and however many of them fail: after a call that gives no record,
no call gives anything. -/
theorem walk_of_directory (t : LocalTree) (d : Disk) (hd : d.Proper) (hnul : NulFree d) :
    (t.followLinks = false → ∀ place children budget, d.resolve true t.root = .ok ⟨place, .directory children, budget⟩ →
      Listable t.root children → ∃ records, RecordsBelow d t.root children records ∧ t.walk d = ⟨records, none⟩ ∧
        ∀ n, nth d.isFileAt (utf8Of t.root) n false (t.visits d) = (records.map .ok)[n]?) ∧
    (∀ n, nth d.isFileAt (utf8Of t.root) n false (t.visits d) = (t.walk d).items[n]?) ∧
    ∀ isFile root visits n, (∀ r, nth isFile root n false visits ≠ some (.ok r)) →
      ∀ m, n < m → nth isFile root m false visits = none := by
  have hcalls (n : Nat) : nth d.isFileAt (utf8Of t.root) n false (t.visits d) = (t.walk d).items[n]? := by
    rw [nth_eq_listing, walk_eq_listing t hd hnul]
  refine ⟨?_, hcalls, ?_⟩
  · intro hfollow place children budget hr hlist
    obtain ⟨hc, hf⟩ := Disk.follow_of_resolve hr
    have hat := Disk.at?_of_follow hf
    have hproper : Proper children := hd.at? hat
    have hlong : ∀ names below, (names, .directory below) ∈ Node.childEntries [] children →
        (utf8Of (joinPath t.root (join "/" names))).length < Disk.maxPath := by
      intro names below hm
      obtain ⟨_, hne, rfl, hbelow⟩ := (hproper.lists [] _ _).1 hm
      exact hlist _ below hne hbelow
    have hwalk : t.walk d = ⟨(Node.childEntries [] children).filterMap (recordOf d t.root), none⟩ := by
      rw [walk_eq_listing t hd hnul, visits, hr, hfollow]
      exact listing_of_entries hnul hproper (Position.stands_root hr [] [place]) (below_root hc place)
        (hd.holds hat) hlong
    refine ⟨_, recordsBelow_of_entries hproper d t.root, hwalk, ?_⟩
    intro n
    rw [hcalls, hwalk, Listing.items]
    simp
  · intro isFile root visits n hn m hm
    simp only [nth_eq_listing] at hn ⊢
    exact items_end _ hn hm

/-! A directory with a file, a directory that holds a link back up, links to a file below, to one outside and to nothing,
and a pipe. -/

def yardChildren : List (String × Node) :=
  [("a.py", .file []), ("pkg", .directory [("up", .link ".."), ("b.py", .file [])]), ("to.py", .link "pkg/b.py"),
    ("out.py", .link "../other.py"), ("lost", .link "nowhere"), ("pipe", .special .pipe)]

def yardDisk : Disk := { entries := [("yard", .directory yardChildren), ("other.py", .file [])] }

theorem yardChildren_proper : Proper yardChildren := by
  have hpkg : Proper [("up", .link ".."), ("b.py", .file [])] :=
    .cons (by decide) (by decide) nofun (.cons (by decide) (by decide) nofun .nil)
  exact .cons (by decide) (by decide) nofun <|
    .cons (by decide) (by decide) (by rintro _ ⟨⟩; exact hpkg) <|
    .cons (by decide) (by decide) nofun <|
    .cons (by decide) (by decide) nofun <|
    .cons (by decide) (by decide) nofun <|
    .cons (by decide) (by decide) nofun .nil

theorem yardDisk_proper : yardDisk.Proper :=
  .cons (by decide) (by decide) (by rintro _ ⟨⟩; exact yardChildren_proper)
    (.cons (by decide) (by decide) nofun .nil)

theorem yardDisk_nulFree : NulFree yardDisk := by
  have hall : ∀ e ∈ Node.childEntries [] yardDisk.entries, ∀ name ∈ e.1, '\x00' ∉ name.toList := by decide
  intro place n hat name hname
  cases place with
  | nil => cases hname
  | cons first more =>
    have hm := (yardDisk_proper.lists [] (first :: more) n).2 ⟨_, List.cons_ne_nil _ _, rfl, hat⟩
    exact hall (first :: more, n) hm name hname

theorem yardDisk_listable : Listable "yard" yardChildren := by
  have hall : ∀ e ∈ Node.childEntries [] yardChildren, (utf8Of (joinPath "yard" (join "/" e.1))).length < Disk.maxPath := by
    decide
  exact listable_of_entries yardChildren_proper fun names below hm => hall (names, .directory below) hm

theorem yardDisk_records :
    yardDisk.Proper ∧ NulFree yardDisk ∧ Listable "yard" yardChildren ∧
      yardDisk.resolve true "yard" = .ok ⟨["yard"], .directory yardChildren, Disk.maxLinks⟩ ∧
      ∃ records, walk ⟨"yard", false⟩ yardDisk = ⟨records, none⟩ ∧
        ⟨"yard/out.py", "out.py", "out.py", false, .path "yard/out.py"⟩ ∈ records ∧
        ⟨"yard/pkg/up", "pkg/up", "up", true, .path "yard/pkg/up"⟩ ∉ records := by
  have hroot : yardDisk.resolve true "yard" = .ok ⟨["yard"], .directory yardChildren, Disk.maxLinks⟩ := rfl
  obtain ⟨hrecords, -, -⟩ := walk_of_directory ⟨"yard", false⟩ yardDisk yardDisk_proper yardDisk_nulFree
  obtain ⟨records, hbelow, hwalk, -⟩ := hrecords rfl _ _ _ hroot yardDisk_listable
  refine ⟨yardDisk_proper, yardDisk_nulFree, yardDisk_listable, hroot, records, hwalk, ?_, ?_⟩
  · exact (hbelow.mem_iff _).2 ⟨["out.py"], .link "../other.py", by decide, rfl, rfl, rfl⟩
  · intro hm
    obtain ⟨names, n, hne, hat, hrecorded, heq⟩ := (hbelow.mem_iff _).1 hm
    -- the names are those of the link, and what it leads to is no file
    have hnames : ["pkg", "up"] = names := join_injective (by decide) hne (by decide)
      (yardChildren_proper.pathNames hat) (congrArg Record.relativePath heq)
    obtain rfl := hnames
    cases hat
    exact absurd hrecorded (by decide)

/-! A link to a file whose own path is too long, and two files whose names are no texts. -/

def linkDisk : Disk := { entries := [("a.py", .file []), ("l.py", .link "a.py")] }

theorem linkDisk_proper : linkDisk.Proper :=
  .cons (by decide) (by decide) nofun (.cons (by decide) (by decide) nofun .nil)

/-- no directory stands below it -/
theorem linkDisk_listable (root : String) : Listable root linkDisk.entries := by
  refine listable_of_entries linkDisk_proper fun names below hm => ?_
  simp [linkDisk, Node.childEntries, Node.entries] at hm

theorem walk_of_resolve {t : LocalTree} {d : Disk} {place : Place} {children : List (String × Node)} {budget : Nat}
    (h : d.resolve true t.root = .ok ⟨place, .directory children, budget⟩) :
    t.walk d = walkChildren d t.followLinks budget ⟨t.root, [], place, [place]⟩ children := by
  rw [walk, h]

/-- a link that leads nowhere has no record -/
theorem walkChildren_linkDisk {d : Disk} {budget : Nat} {p : Position} {fault : Fault}
    (h : p.linked d budget "l.py" "a.py" = .error fault) :
    walkChildren d false budget p linkDisk.entries = ⟨[p.record "a.py" false], none⟩ := by
  simp only [linkDisk, walkChildren_link, walkChildren, h]
  rfl

/-- below so long a path there is no room for a name -/
theorem tooLong_slashes {p : Position} (h : p.shown = slashes 4094) : p.tooLong "l.py" = true := by
  have hname : (utf8Of "l.py").length = 4 := by decide
  have hlength : Disk.maxPath ≤ (utf8Of (joinPath p.shown "l.py")).length := by
    rw [h, joinPath_slashes, utf8Of_append, List.length_append, length_slashes, hname, Disk.maxPath]
    omega
  exact decide_eq_true hlength

def linkTree : LocalTree := ⟨slashes 4094, false⟩

def linkRoot : Position := ⟨slashes 4094, [], [], [[]]⟩

theorem linkDisk_walk : linkTree.walk linkDisk = ⟨[linkRoot.record "a.py" false], none⟩ := by
  have hroot : linkDisk.resolve true linkTree.root = .ok ⟨[], linkDisk.top, Disk.maxLinks⟩ :=
    resolve_slashes (by decide) rfl
  have hlong : linkRoot.tooLong "l.py" = true := tooLong_slashes rfl
  have hlinked : linkRoot.linked linkDisk Disk.maxLinks "l.py" "a.py" = .error .nameTooLong := by
    unfold Position.linked
    rw [if_pos hlong]
  exact (walk_of_resolve hroot).trans (walkChildren_linkDisk hlinked)

/-- the names differ in an octet that is shown as U+FFFD in both -/
def rawVisits : List Visit :=
  [.ok ⟨utf8Of "r/a" ++ 0xFF :: utf8Of ".py", .file⟩, .ok ⟨utf8Of "r/a" ++ 0xFE :: utf8Of ".py", .file⟩]

/-- a link that leads to a file without a record, and two files that are told apart by nothing that is shown of them -/
theorem linkDisk_and_rawVisits :
    (linkDisk.at? ["l.py"] = some (.link "a.py") ∧ linkDisk.isFile "l.py" = true ∧
      Listable linkTree.root linkDisk.entries ∧
      ∃ records, walk linkTree linkDisk = ⟨records, none⟩ ∧ ∀ r ∈ records, r.name ≠ "l.py") ∧
    ∃ first second, nth (fun _ => true) (utf8Of "r") 0 false rawVisits = some (.ok first) ∧
      nth (fun _ => true) (utf8Of "r") 1 false rawVisits = some (.ok second) ∧ first.content ≠ second.content ∧
      first.relativePath = second.relativePath ∧ first.path = second.path ∧ first.name = second.name := by
  refine ⟨⟨rfl, rfl, linkDisk_listable _, _, linkDisk_walk, ?_⟩, ?_⟩
  · intro r hr
    obtain rfl := List.mem_singleton.1 hr
    decide
  · refine ⟨⟨"r/a\uFFFD.py", "a\uFFFD.py", "a\uFFFD.py", false, .rawPath (utf8Of "r/a" ++ 0xFF :: utf8Of ".py")⟩,
      ⟨"r/a\uFFFD.py", "a\uFFFD.py", "a\uFFFD.py", false, .rawPath (utf8Of "r/a" ++ 0xFE :: utf8Of ".py")⟩, ?_, ?_,
      by decide, rfl, rfl, rfl⟩
    · decide +kernel
    · decide +kernel

end LocalTree

end ImportHarvest

import ImportHarvest.Sink
/-!
Writing a file at a place, and reading it back.

A file that is put at a place below an existing directory stands there afterwards (`at?_put_self`), and what stood
elsewhere still does, but for the children of the directories on the way (`at?_put_other`). So a path that led to the
place of a file to create leads there whatever is put in the file, for a read and for another creation:
`read_of_create`, `create_of_create`. The place may also be that of the null device (`Opens`); then nothing is put there,
and nothing is read.
-/

namespace ImportHarvest

open Text

/-! ## Nodes -/

namespace Node

/-- a place that may take a new file: a name in a directory that is there -/
def Takes (n : Node) (place : Place) : Prop :=
  ∃ here name children, place = here ++ [name] ∧ n.at? here = some (.directory children)

/-- both are directories, or they are the same -/
def SameKind (m m' : Node) : Prop := m = m' ∨ ∃ cs cs', m = .directory cs ∧ m' = .directory cs'

theorem lookup_changeChild_self (name : String) (change : Option Node → Node) (cs : List (String × Node)) :
    (changeChild name change cs).lookup name = some (change (cs.lookup name)) := by
  induction cs with
  | nil => simp [changeChild]
  | cons c cs ih =>
    obtain ⟨other, m⟩ := c
    by_cases h : other = name
    · simp [changeChild, h]
    · have h' : (name == other) = false := by simpa using Ne.symm h
      simp [changeChild, h, List.lookup_cons, h', ih]

theorem lookup_changeChild_other {name other : String} (h : other ≠ name) (change : Option Node → Node)
    (cs : List (String × Node)) : (changeChild name change cs).lookup other = cs.lookup other := by
  have ho : (other == name) = false := beq_false_of_ne h
  induction cs with
  | nil => simp [changeChild, List.lookup_cons, ho]
  | cons c cs ih =>
    obtain ⟨first, m⟩ := c
    by_cases hf : first = name
    · subst hf
      simp [changeChild, List.lookup_cons, ho]
    · simp [changeChild, hf, List.lookup_cons, ih]

theorem changeChild_changeChild (name : String) (f g : Option Node → Node) (cs : List (String × Node)) :
    changeChild name g (changeChild name f cs) = changeChild name (fun old => g (some (f old))) cs := by
  induction cs with
  | nil => simp [changeChild]
  | cons c cs ih =>
    obtain ⟨other, m⟩ := c
    by_cases h : other = name <;> simp [changeChild, h, ih]

theorem at?_append (n : Node) (a b : Place) : n.at? (a ++ b) = (n.at? a).bind (at? b) := by
  induction a generalizing n with
  | nil => rfl
  | cons name a ih => cases h : n.child? name <;> simp [at?, h, ih]

/-- only a directory has something below it -/
theorem at?_cons_eq_some {n m : Node} {name : String} {rest : Place} (h : n.at? (name :: rest) = some m) :
    ∃ cs c, n = .directory cs ∧ cs.lookup name = some c ∧ c.at? rest = some m := by
  simp only [at?, Option.bind_eq_some_iff] at h
  obtain ⟨c, hc, hm⟩ := h
  cases n with
  | directory cs => exact ⟨cs, c, rfl, hc, hm⟩
  | _ => cases hc

theorem put_put (a b : Node) (place : Place) (n : Node) : put b place (put a place n) = put b place n := by
  induction place generalizing n with
  | nil => rfl
  | cons name rest ih =>
    cases n with
    | directory cs => simp only [put, changeChild_changeChild, Option.getD_some, ih]
    | _ => rfl

theorem at?_put_self {n : Node} {place : Place} (h : n.Takes place) (new : Node) :
    (put new place n).at? place = some new := by
  obtain ⟨here, name, children, rfl, hh⟩ := h
  induction here generalizing n with
  | nil =>
    cases hh
    simp [put, at?, child?, lookup_changeChild_self]
  | cons first here ih =>
    obtain ⟨cs, c, rfl, hc, hm⟩ := at?_cons_eq_some hh
    simp [put, at?, child?, lookup_changeChild_self, hc, ih hm]

theorem at?_put_other {n m : Node} {p place : Place} (hp : n.at? p = some m) (h : ¬ place <+: p) (new : Node) :
    ∃ m', (put new place n).at? p = some m' ∧ SameKind m m' := by
  induction place generalizing n p with
  | nil => exact absurd (List.nil_prefix) h
  | cons name rest ih =>
    cases p with
    | nil =>
      cases hp
      cases m with
      | directory cs => exact ⟨_, rfl, .inr ⟨cs, _, rfl, rfl⟩⟩
      | _ => exact ⟨_, rfl, .inl rfl⟩
    | cons x p =>
      obtain ⟨cs, c, rfl, hc, hm⟩ := at?_cons_eq_some hp
      by_cases hx : x = name
      · subst hx
        have hr : ¬ rest <+: p := fun hr => h (List.cons_prefix_cons.2 ⟨rfl, hr⟩)
        obtain ⟨m', hm', hk⟩ := ih hm hr
        exact ⟨m', by simp [put, at?, child?, lookup_changeChild_self, hc, hm'], hk⟩
      · exact ⟨m, by simp [put, at?, child?, lookup_changeChild_other hx, hc, hm], .inl rfl⟩

end Node

/-! ## File systems -/

namespace Disk

variable {d : Disk} {place here : Place}

/-- a place for a file: in a directory that is there, with nothing or a file on it -/
structure FilePlace (d : Disk) (place : Place) : Prop where
  takes : d.top.Takes place
  free : d.at? place = none ∨ ∃ old, d.at? place = some (.file old)

/-- the null device stands at the place -/
def IsDevice (d : Disk) (place : Place) : Prop := d.at? place = some (.special .nullDevice)

/-- a place that can be opened for writing -/
def Opens (d : Disk) (place : Place) : Prop := d.FilePlace place ∨ d.IsDevice place

/-- a directory stands at the place -/
def IsDir (d : Disk) (place : Place) : Prop := ∃ cs, d.at? place = some (.directory cs)

theorem isDir_of_hasDirectory (h : d.hasDirectory place = true) : d.IsDir place := by
  unfold hasDirectory at h
  split at h
  · exact ⟨_, ‹_›⟩
  · cases h

/-- only a directory has something in it -/
theorem isDir_of_at? {name : String} {n : Node} (h : d.at? (here ++ [name]) = some n) : d.IsDir here := by
  simp only [at?, Node.at?_append, Option.bind_eq_some_iff] at h
  obtain ⟨m, hm, hn⟩ := h
  obtain ⟨cs, _, rfl, _, _⟩ := Node.at?_cons_eq_some hn
  exact ⟨cs, hm⟩

theorem FilePlace.ne_nil (h : d.FilePlace place) : place ≠ [] := by
  obtain ⟨above, name, _, rfl, _⟩ := h.takes
  simp

/-- nothing but a file can stand at or below the place of a file -/
theorem FilePlace.not_prefix (h : d.FilePlace place) {p : Place} {n : Node} (hp : d.at? p = some n)
    (hn : ∀ content, n ≠ .file content) : ¬ place <+: p := by
  rintro ⟨below, rfl⟩
  simp only [at?, Node.at?_append] at hp
  rcases h.free with hf | ⟨old, hf⟩ <;> rw [at?] at hf <;> rw [hf] at hp
  · cases hp
  · cases below with
    | nil => cases hp; exact hn old rfl
    | cons name below => cases hp

theorem top_put (h : place ≠ []) (new : Node) : (d.put place new).top = Node.put new place d.top := by
  cases place with
  | nil => exact absurd rfl h
  | cons name rest => rfl

@[simp] theorem here_put (d : Disk) (place : Place) (new : Node) : (d.put place new).here = d.here := by
  unfold put
  split <;> rfl

theorem eq_of_top {a b : Disk} (htop : a.top = b.top) (hhere : a.here = b.here) : a = b := by
  obtain ⟨entries, here⟩ := a
  cases htop
  cases hhere
  rfl

theorem put_put (h : place ≠ []) (a b : Node) : (d.put place a).put place b = d.put place b := by
  refine eq_of_top ?_ (by simp only [here_put])
  simp only [top_put h, Node.put_put]

theorem at?_put (h : d.FilePlace place) (new : Node) : (d.put place new).at? place = some new := by
  rw [at?, top_put h.ne_nil]
  exact Node.at?_put_self h.takes new

theorem isDir_put (h : d.FilePlace place) (new : Node) {p : Place} (hp : d.IsDir p) : (d.put place new).IsDir p := by
  obtain ⟨cs, hc⟩ := hp
  have hn := h.not_prefix hc (by simp)
  obtain ⟨n, hn, rfl | ⟨_, cs', _, rfl⟩⟩ := Node.at?_put_other hc hn new
  · exact ⟨cs, by rw [at?, top_put h.ne_nil, hn]⟩
  · exact ⟨cs', by rw [at?, top_put h.ne_nil, hn]⟩

theorem link_put (h : d.FilePlace place) (new : Node) {p : Place} {target : String}
    (hp : d.at? p = some (.link target)) : (d.put place new).at? p = some (.link target) := by
  have hn := h.not_prefix hp (by simp)
  obtain ⟨n, hn, rfl | ⟨_, _, hc, _⟩⟩ := Node.at?_put_other hp hn new
  · rw [at?, top_put h.ne_nil, hn]
  · cases hc

theorem filePlace_child {name : String} (hd : d.IsDir here)
    (hf : d.at? (here ++ [name]) = none ∨ ∃ old, d.at? (here ++ [name]) = some (.file old)) :
    d.FilePlace (here ++ [name]) := by
  obtain ⟨cs, hc⟩ := hd
  exact ⟨⟨here, name, cs, rfl, hc⟩, hf⟩

theorem filePlace_top {name : String}
    (hf : d.at? [name] = none ∨ ∃ old, d.at? [name] = some (.file old)) : d.FilePlace [name] :=
  have htop : d.IsDir [] := ⟨d.entries, rfl⟩
  filePlace_child htop hf

theorem filePlace_put (h : d.FilePlace place) (content : Octets) :
    (d.put place (.file content)).FilePlace place := by
  obtain ⟨above, name, cs, rfl, hc⟩ := h.takes
  exact filePlace_child (isDir_put h _ ⟨cs, hc⟩) (.inr ⟨content, at?_put h _⟩)

/-! ## What is kept of what is written -/

/-- what there is to read at a place after a write of this: all of it in a file, and nothing on the null device -/
def kept (d : Disk) (place : Place) (content : Octets) : Octets :=
  match d.at? place with
  | some (.special .nullDevice) => []
  | _ => content

theorem store_of_isDevice (h : d.IsDevice place) (content : Octets) : d.store place content = d := by
  rw [store, h]

theorem kept_of_isDevice (h : d.IsDevice place) (content : Octets) : d.kept place content = [] := by
  rw [kept, h]

theorem store_of_filePlace (h : d.FilePlace place) (content : Octets) :
    d.store place content = d.put place (.file content) := by
  rcases h.free with hf | ⟨old, hf⟩ <;> rw [store, hf]

theorem kept_of_filePlace (h : d.FilePlace place) (content : Octets) : d.kept place content = content := by
  rcases h.free with hf | ⟨old, hf⟩ <;> rw [kept, hf]

@[simp] theorem here_store (d : Disk) (place : Place) (content : Octets) : (d.store place content).here = d.here := by
  unfold store
  split <;> simp

@[simp] theorem start_store (d : Disk) (place : Place) (content : Octets) (path : String) :
    (d.store place content).start path = d.start path := by
  rw [start, start, here_store]

theorem isDir_store (h : d.Opens place) (content : Octets) {p : Place} (hp : d.IsDir p) :
    (d.store place content).IsDir p := by
  rcases h with hf | hd
  · rw [store_of_filePlace hf]
    exact isDir_put hf _ hp
  · rwa [store_of_isDevice hd]

theorem link_store (h : d.Opens place) (content : Octets) {p : Place} {target : String}
    (hp : d.at? p = some (.link target)) : (d.store place content).at? p = some (.link target) := by
  rcases h with hf | hd
  · rw [store_of_filePlace hf]
    exact link_put hf _ hp
  · rwa [store_of_isDevice hd]

theorem store_store (h : d.Opens place) (a b : Octets) : (d.store place a).store place b = d.store place b := by
  rcases h with hf | hd
  · rw [store_of_filePlace hf, store_of_filePlace hf, store_of_filePlace (filePlace_put hf a), put_put hf.ne_nil]
  · rw [store_of_isDevice hd]

/-- what stands at the place after a write is read as what is kept of it -/
theorem at?_store (h : d.Opens place) (content : Octets) :
    ∃ n, (d.store place content).at? place = some n ∧ contentOf n = .ok (d.kept place content) := by
  rcases h with hf | hd
  · rw [store_of_filePlace hf, kept_of_filePlace hf]
    exact ⟨.file content, at?_put hf _, rfl⟩
  · rw [store_of_isDevice hd, kept_of_isDevice hd]
    exact ⟨.special .nullDevice, hd, rfl⟩

/-! ## Paths -/

/-- a name that is followed to something that can be read -/
theorem advance_of_content {name : String} {n : Node} {content : Octets} (hskip : ¬ (name = "" || name = "."))
    (hup : ¬ name = "..") (hlong : ¬ maxName < (utf8Of name).length) (hn : d.at? (here ++ [name]) = some n)
    (hc : contentOf n = .ok content) : d.advance true here [name] = .found (here ++ [name]) n := by
  rw [advance, if_neg hskip, if_neg hup, if_neg hlong, hn]
  cases n with
  | directory cs => cases hc
  | link target => cases hc
  | _ => rfl

/-- a name whose place can be opened is settled there -/
theorem advanceNew_of_content {name : String} {n : Node} {content : Octets} (hskip : ¬ (name = "" || name = "."))
    (hup : ¬ name = "..") (hlong : ¬ maxName < (utf8Of name).length) (hn : d.at? (here ++ [name]) = some n)
    (hc : contentOf n = .ok content) : d.advanceNew here [name] = .place (here ++ [name]) := by
  rw [advanceNew, if_neg hskip, if_neg hup, if_neg (by simp), if_neg hlong, hn]
  cases n with
  | directory cs => cases hc
  | link target => cases hc
  | special kind => cases kind <;> first | rfl | cases hc
  | file old => rfl

/-- names that end at a place to open end at what is read there once it is written, and at its place when it is opened
again -/
theorem advance_of_place {names : List String} (h : d.advanceNew here names = .place place) :
    d.Opens place ∧ ∀ content, (d.store place content).advanceNew here names = .place place ∧
      ∃ n, contentOf n = .ok (d.kept place content) ∧ (d.store place content).advance true here names = .found place n := by
  -- the last name, whatever stands there
  have hlast : ∀ {here : Place} {name : String}, ¬ (name = "" || name = ".") → ¬ name = ".." →
      ¬ maxName < (utf8Of name).length → d.Opens (here ++ [name]) →
      d.Opens (here ++ [name]) ∧ ∀ content,
        (d.store (here ++ [name]) content).advanceNew here [name] = .place (here ++ [name]) ∧
          ∃ n, contentOf n = .ok (d.kept (here ++ [name]) content) ∧
            (d.store (here ++ [name]) content).advance true here [name] = .found (here ++ [name]) n := by
    intro here name hskip hup hlong ho
    refine ⟨ho, fun content => ?_⟩
    obtain ⟨n, hn, hc⟩ := at?_store ho content
    exact ⟨advanceNew_of_content hskip hup hlong hn hc, n, hc, advance_of_content hskip hup hlong hn hc⟩
  fun_induction advanceNew d here names with
  | case2 here name rest hskip ih =>
    obtain ⟨ho, hr⟩ := ih h
    refine ⟨ho, fun content => ?_⟩
    rw [advance, advanceNew, if_pos hskip, if_pos hskip]
    exact hr content
  | case3 here rest hskip ih =>
    obtain ⟨ho, hr⟩ := ih h
    refine ⟨ho, fun content => ?_⟩
    rw [advance, advanceNew, if_neg hskip, if_neg hskip, if_pos rfl, if_pos rfl]
    exact hr content
  | case6 here name rest hskip hup hend hlong hnone hmade =>
    cases h
    simp only [Bool.and_eq_true, decide_eq_true_eq] at hmade
    obtain ⟨rfl, hdir⟩ := hmade
    exact hlast hskip hup hlong (.inl (filePlace_child (isDir_of_hasDirectory hdir) (.inl hnone)))
  | case9 here name rest hskip hup hend hlong cs hdir hrest ih =>
    obtain ⟨ho, hr⟩ := ih h
    refine ⟨ho, fun content => ?_⟩
    obtain ⟨cs', hc'⟩ := isDir_store ho content ⟨cs, hdir⟩
    rw [advance, advanceNew, if_neg hskip, if_neg hskip, if_neg hup, if_neg hup, if_neg hend, if_neg hlong, if_neg hlong,
      hc']
    simp only [hrest, if_false]
    exact hr content
  | case11 here name hskip hup hlong old hfile =>
    cases h
    exact hlast hskip hup hlong (.inl (filePlace_child (isDir_of_at? hfile) (.inr ⟨old, hfile⟩)))
  | case13 here name hskip hup hlong hdevice =>
    cases h
    exact hlast hskip hup hlong (.inr hdevice)
  | _ => cases h

/-- names that come to a link come to it as well once something is written somewhere -/
theorem advance_of_link {names rest : List String} {here' : Place} {target : String}
    (h : d.advanceNew here names = .link here' target rest) (ho : d.Opens place) (content : Octets) :
    (d.store place content).advance true here names = .link here' target rest ∧
      (d.store place content).advanceNew here names = .link here' target rest := by
  fun_induction advanceNew d here names with
  | case2 here name rest hskip ih =>
    rw [advance, advanceNew, if_pos hskip, if_pos hskip]
    exact ih h
  | case3 here rest hskip ih =>
    rw [advance, advanceNew, if_neg hskip, if_neg hskip, if_pos rfl, if_pos rfl]
    exact ih h
  | case9 here name rest hskip hup hend hlong cs hdir hrest ih =>
    obtain ⟨cs', hc'⟩ := isDir_store ho content ⟨cs, hdir⟩
    rw [advance, advanceNew, if_neg hskip, if_neg hskip, if_neg hup, if_neg hup, if_neg hend, if_neg hlong, if_neg hlong,
      hc']
    simp only [hrest, if_false]
    exact ih h
  | case10 here name rest hskip hup hend hlong target hlink =>
    cases h
    rw [advance, advanceNew, if_neg hskip, if_neg hskip, if_neg hup, if_neg hup, if_neg hend, if_neg hlong, if_neg hlong,
      link_store ho content hlink]
    simp
  | _ => cases h

theorem follow_of_followNew {budget : Nat} {names : List String} (h : d.followNew budget here names = .ok place) :
    d.Opens place ∧ ∀ content, (d.store place content).followNew budget here names = .ok place ∧
      ∃ n left, contentOf n = .ok (d.kept place content) ∧
        (d.store place content).follow true budget here names = .ok ⟨place, n, left⟩ := by
  -- where no link is left to follow
  have hsettled : ∀ {budget : Nat} {here : Place} {names : List String}, d.advanceNew here names = .place place →
      d.Opens place ∧ ∀ content, (d.store place content).followNew budget here names = .ok place ∧
        ∃ n left, contentOf n = .ok (d.kept place content) ∧
          (d.store place content).follow true budget here names = .ok ⟨place, n, left⟩ := by
    intro budget here names hp
    obtain ⟨ho, hr⟩ := advance_of_place hp
    refine ⟨ho, fun content => ?_⟩
    obtain ⟨hnew, n, hc, hadv⟩ := hr content
    refine ⟨by unfold followNew; rw [hnew], n, budget, hc, ?_⟩
    unfold follow
    rw [hadv]
  induction budget generalizing here names with
  | zero =>
    unfold followNew at h
    split at h
    · cases h
      exact hsettled ‹_›
    · cases h
    · cases h
  | succ n ih =>
    unfold followNew at h
    split at h
    · cases h
      exact hsettled ‹_›
    · cases h
    · rename_i here' target rest hl
      obtain ⟨ho, hf⟩ := ih h
      refine ⟨ho, fun content => ?_⟩
      obtain ⟨hadv, hnew⟩ := advance_of_link hl ho content
      obtain ⟨hn, m, left, hc, hm⟩ := hf content
      exact ⟨by rw [followNew, hnew]; exact hn, m, left, hc, by rw [follow, hadv]; exact hm⟩

theorem create_eq_ok {path : String} {created : Disk} (h : d.create path = .ok (place, created)) :
    checkPath path = .ok () ∧ d.followNew maxLinks (d.start path) (steps path) = .ok place ∧
      created = d.store place [] := by
  unfold create at h
  cases hc : checkPath path with
  | error e => rw [hc] at h; cases h
  | ok _ =>
    cases hf : d.followNew maxLinks (d.start path) (steps path) with
    | error e => rw [hc, hf] at h; cases h
    | ok p =>
      rw [hc, hf] at h
      cases h
      exact ⟨rfl, rfl, rfl⟩

/-- **What is written to a created file is read under its path.** A path that a file was created under leads to a place
that can be opened; whatever is written there, a read of the path gives what is kept of it. -/
theorem read_of_create {path : String} {created : Disk} (h : d.create path = .ok (place, created)) :
    d.Opens place ∧ created = d.store place [] ∧
      ∀ content, (d.store place content).read path = .ok (d.kept place content) := by
  obtain ⟨hc, hf, rfl⟩ := create_eq_ok h
  obtain ⟨ho, hr⟩ := follow_of_followNew hf
  refine ⟨ho, rfl, fun content => ?_⟩
  obtain ⟨-, n, left, hn, hl⟩ := hr content
  unfold read resolve
  rw [hc, start_store, hl]
  exact hn

/-- **A created file is created again at its place**, whatever was written to it, and what was written is gone -/
theorem create_of_create {path : String} {created : Disk} (h : d.create path = .ok (place, created))
    (content : Octets) : (d.store place content).create path = .ok (place, created) := by
  obtain ⟨hc, hf, rfl⟩ := create_eq_ok h
  obtain ⟨ho, hr⟩ := follow_of_followNew hf
  rw [← store_store ho content [], create, hc, start_store]
  simp only [bind, Except.bind, pure, Except.pure, (hr content).1]

end Disk

end ImportHarvest

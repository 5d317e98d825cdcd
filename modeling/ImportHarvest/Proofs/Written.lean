import ImportHarvest.Proofs.Paths
/-!
Two file systems that differ in one file.

`Changed` says how the children of a directory differ before and after a file is put at a place: one of them is that file,
new or with another content, or one of them is a directory that differs so itself. A path then leads to the same place in
both, unless it leads to that file: there it may have led nowhere before (`follow_of_changed`). So what is read
elsewhere is the same in both (`read_of_changed`), and that a path leads to the file does not depend on what the file
holds (`Leads.of_put`).
-/

namespace ImportHarvest

open Text

/-! ## Nodes -/

/-- how the children of the directory `here` differ when the file at `place` is made or gets another content -/
inductive Changed (place : Place) (content : Octets) : Place → List (String × Node) → List (String × Node) → Prop where
  | same {here : Place} {cs : List (String × Node)} : Changed place content here cs cs
  | created {here : Place} {name : String} : here ++ [name] = place →
      Changed place content here [] [(name, .file content)]
  | written {here : Place} {name : String} {old : Octets} {rest : List (String × Node)} : here ++ [name] = place →
      Changed place content here ((name, .file old) :: rest) ((name, .file content) :: rest)
  | inside {here : Place} {name : String} {cs cs' rest : List (String × Node)} :
      Changed place content (here ++ [name]) cs cs' →
      Changed place content here ((name, .directory cs) :: rest) ((name, .directory cs') :: rest)
  | later {here : Place} {name : String} {n : Node} {rest rest' : List (String × Node)} : here ++ [name] ≠ place →
      Changed place content here rest rest' → Changed place content here ((name, n) :: rest) ((name, n) :: rest')

/-- how the node at `here` differs -/
inductive Node.Changed (place : Place) (content : Octets) (here : Place) : Node → Node → Prop where
  | same {n : Node} : Node.Changed place content here n n
  | written {old : Octets} : here = place → Node.Changed place content here (.file old) (.file content)
  | inside {cs cs' : List (String × Node)} : ImportHarvest.Changed place content here cs cs' →
      Node.Changed place content here (.directory cs) (.directory cs')

/-- how what stands at `here` differs, if anything stands there -/
inductive Differs (place : Place) (content : Octets) (here : Place) : Option Node → Option Node → Prop where
  | none : Differs place content here none none
  | some {n n' : Node} : n.Changed place content here n' → Differs place content here (some n) (some n')
  | created : here = place → Differs place content here none (some (.file content))

section

variable {place here : Place} {content : Octets} {cs cs' : List (String × Node)} {n n' : Node} {name : String}

theorem Differs.refl (place : Place) (content : Octets) (here : Place) (o : Option Node) :
    Differs place content here o o := by
  cases o with
  | none => exact .none
  | some n => exact .some .same

theorem Changed.lookup (h : Changed place content here cs cs') (name : String) :
    Differs place content (here ++ [name]) (cs.lookup name) (cs'.lookup name) := by
  induction h with
  | same => exact .refl ..
  | @created here first hp =>
    by_cases hf : name = first
    · subst hf
      simpa using Differs.created hp
    · simpa [List.lookup_cons, beq_false_of_ne hf] using Differs.none
  | @written here first old rest hp =>
    by_cases hf : name = first
    · subst hf
      simpa using Differs.some (.written hp)
    · simpa [List.lookup_cons, beq_false_of_ne hf] using Differs.refl ..
  | @inside here first cs cs' rest hc _ =>
    by_cases hf : name = first
    · subst hf
      simpa using Differs.some (.inside hc)
    · simpa [List.lookup_cons, beq_false_of_ne hf] using Differs.refl ..
  | @later here first n rest rest' _ _ ih =>
    by_cases hf : name = first
    · subst hf
      simpa using Differs.some .same
    · simpa [List.lookup_cons, beq_false_of_ne hf] using ih

theorem Changed.of_nil (h : Changed place content here [] cs') :
    cs' = [] ∨ ∃ name, here ++ [name] = place ∧ cs' = [(name, .file content)] := by
  cases h with
  | same => exact .inl rfl
  | created hp => exact .inr ⟨_, hp, rfl⟩

theorem Changed.of_cons (h : Changed place content here ((name, n) :: cs) cs') :
    ∃ n' rest, cs' = (name, n') :: rest ∧ n.Changed place content (here ++ [name]) n' ∧
      Changed place content here cs rest := by
  cases h with
  | same => exact ⟨n, cs, rfl, .same, .same⟩
  | written hp => exact ⟨_, cs, rfl, .written hp, .same⟩
  | inside hc => exact ⟨_, cs, rfl, .inside hc, .same⟩
  | later _ hc => exact ⟨n, _, rfl, .same, hc⟩

theorem Node.Changed.of_directory (h : (Node.directory cs).Changed place content here n') :
    ∃ cs', n' = .directory cs' ∧ ImportHarvest.Changed place content here cs cs' := by
  cases h with
  | same => exact ⟨cs, rfl, .same⟩
  | inside hc => exact ⟨_, rfl, hc⟩

/-- what stands below differs in the same way -/
theorem Node.Changed.at? (h : n.Changed place content here n') (below : Place) :
    Differs place content (here ++ below) (n.at? below) (n'.at? below) := by
  induction below generalizing here n n' with
  | nil =>
    rw [List.append_nil]
    exact .some h
  | cons name below ih =>
    cases h with
    | same => exact .refl ..
    | written => exact .none
    | @inside cs cs' hc =>
      have hl := hc.lookup name
      simp only [Node.at?, Node.child?]
      rw [show here ++ name :: below = here ++ [name] ++ below by simp]
      generalize cs.lookup name = o at hl ⊢
      generalize cs'.lookup name = o' at hl ⊢
      cases hl with
      | none => exact .none
      | some hn => exact ih hn
      | created hp =>
        cases below with
        | nil => exact .created (by simpa using hp)
        | cons => exact .none

/-- changing what stands under a name is a change when it is one of the node under that name -/
theorem changed_changeChild {change : Option Node → Node}
    (hpath : here ++ [name] <+: place)
    (hnone : cs.lookup name = none → here ++ [name] = place ∧ change none = .file content)
    (hsome : ∀ n, cs.lookup name = some n → n.Changed place content (here ++ [name]) (change (some n))) :
    Changed place content here cs (Node.changeChild name change cs) := by
  induction cs with
  | nil =>
    obtain ⟨hp, hc⟩ := hnone rfl
    rw [Node.changeChild, hc]
    exact .created hp
  | cons c cs ih =>
    obtain ⟨other, m⟩ := c
    rw [Node.changeChild]
    split
    · rename_i hother
      subst hother
      have hm := hsome m (by simp)
      generalize change (some m) = m' at hm ⊢
      cases hm with
      | same => exact .same
      | written hp => exact .written hp
      | inside hc => exact .inside hc
    · rename_i hother
      have hl : ((other, m) :: cs).lookup name = cs.lookup name := by
        rw [List.lookup_cons, beq_false_of_ne (Ne.symm hother)]
      rw [hl] at hnone hsome
      refine .later ?_ (ih hnone hsome)
      -- the place lies under the name, so it is not the place of another one
      intro hp
      obtain ⟨more, hmore⟩ := hpath
      rw [← hp, List.append_assoc, List.append_cancel_left_eq] at hmore
      exact hother (List.cons.inj hmore).1.symm

/-- putting a file at a place for one is a change of it -/
theorem Node.changed_put {above : Place} (hn : n.at? above = some (.directory cs))
    (hfree : n.at? (above ++ [name]) = none ∨ ∃ old, n.at? (above ++ [name]) = some (.file old))
    (hp : here ++ (above ++ [name]) = place) :
    n.Changed place content here (Node.put (.file content) (above ++ [name]) n) := by
  induction above generalizing here n with
  | nil =>
    cases hn
    rw [List.nil_append] at hp hfree ⊢
    rw [Node.put]
    refine .inside (changed_changeChild ⟨[], by rw [List.append_nil, hp]⟩ (fun _ => ⟨hp, rfl⟩) fun n hl => ?_)
    rcases hfree with hf | ⟨old, hf⟩
    · simp [Node.at?, Node.child?, hl] at hf
    · obtain rfl : n = .file old := by simpa [Node.at?, Node.child?, hl] using hf
      exact .written hp
  | cons first above ih =>
    obtain ⟨cs', c, rfl, hc, hm⟩ := Node.at?_cons_eq_some hn
    have hfree' : c.at? (above ++ [name]) = none ∨ ∃ old, c.at? (above ++ [name]) = some (.file old) := by
      simpa [Node.at?, Node.child?, hc] using hfree
    have hp' : here ++ [first] ++ (above ++ [name]) = place := by simpa using hp
    rw [List.cons_append, Node.put]
    refine .inside (changed_changeChild ⟨above ++ [name], hp'⟩ (fun hl => ?_) fun n hl => ?_)
    · rw [hc] at hl
      cases hl
    · obtain rfl : c = n := Option.some_inj.1 (hc.symm.trans hl)
      exact ih hm hfree' hp'

end

/-! ## Paths -/

namespace Disk

/-- the file systems differ in the file at `place`, which is new in the other one or has that content there -/
structure Changed (place : Place) (content : Octets) (d d' : Disk) : Prop where
  top : d.top.Changed place content [] d'.top
  here : d'.here = d.here

section

variable {place here : Place} {content : Octets} {d d' : Disk}

theorem FilePlace.changed (h : d.FilePlace place) (content : Octets) :
    d.Changed place content (d.put place (.file content)) := by
  obtain ⟨above, name, cs, rfl, hc⟩ := h.takes
  refine ⟨?_, here_put ..⟩
  rw [top_put h.ne_nil]
  exact Node.changed_put hc h.free (List.nil_append _)

theorem Changed.at? (h : d.Changed place content d') (here : Place) :
    Differs place content here (d.at? here) (d'.at? here) :=
  Node.Changed.at? h.top here

theorem Changed.start (h : d.Changed place content d') (path : String) : d'.start path = d.start path := by
  rw [Disk.start, Disk.start, h.here]

theorem Changed.entries (h : d.Changed place content d') :
    ImportHarvest.Changed place content [] d.entries d'.entries := by
  have htop := h.top
  unfold Disk.top at htop
  generalize d.entries = cs at htop ⊢
  generalize d'.entries = cs' at htop ⊢
  cases htop with
  | same => exact .same
  | inside hc => exact hc

/-- how far names lead in both file systems: as far as before, or to the file where they were refused -/
inductive StopChanged (place : Place) (content : Octets) : Stop → Stop → Prop where
  | refused {e e' : Fault} : StopChanged place content (.refused e) (.refused e')
  | found {here : Place} {n n' : Node} : n.Changed place content here n' →
      StopChanged place content (.found here n) (.found here n')
  | created {e : Fault} : StopChanged place content (.refused e) (.found place (.file content))
  | link {here : Place} {target : String} {rest : List String} :
      StopChanged place content (.link here target rest) (.link here target rest)

theorem advance_of_changed (h : d.Changed place content d') (here : Place) (names : List String) :
    StopChanged place content (d.advance true here names) (d'.advance true here names) := by
  induction names generalizing here with
  | nil =>
    have hd := h.at? here
    rw [advance, advance]
    generalize d.at? here = o at hd ⊢
    generalize d'.at? here = o' at hd ⊢
    cases hd with
    | none => exact .refused
    | some hn => exact .found hn
    | created hp =>
      subst hp
      exact .created
  | cons name rest ih =>
    rw [advance, advance]
    by_cases hskip : name = "" || name = "."
    · rw [if_pos hskip, if_pos hskip]
      exact ih here
    by_cases hup : name = ".."
    · rw [if_neg hskip, if_neg hskip, if_pos hup, if_pos hup]
      exact ih here.dropLast
    by_cases hlong : maxName < (utf8Of name).length
    · rw [if_neg hskip, if_neg hskip, if_neg hup, if_neg hup, if_pos hlong, if_pos hlong]
      exact .refused
    rw [if_neg hskip, if_neg hskip, if_neg hup, if_neg hup, if_neg hlong, if_neg hlong]
    have hd := h.at? (here ++ [name])
    generalize d.at? (here ++ [name]) = o at hd ⊢
    generalize d'.at? (here ++ [name]) = o' at hd ⊢
    cases hd with
    | none => exact .refused
    | created hp =>
      -- the file is there now: names that end in it find it, and names behind it are refused as before
      subst hp
      dsimp only
      split
      · exact .created
      · exact .refused
    | @some n n' hn =>
      cases hn with
      | same =>
        cases n with
        | directory => exact ih (here ++ [name])
        | link target =>
          simp only [Bool.not_true, Bool.and_false, Bool.false_eq_true, if_false]
          exact .link
        | file | special =>
          dsimp only
          split
          · exact .found .same
          · exact .refused
      | written hp =>
        dsimp only
        split
        · exact .found (.written hp)
        · exact .refused
      | inside hc => exact ih (here ++ [name])

/-- where names lead in both file systems: to the same place, or to the file where they led nowhere -/
inductive FollowChanged (place : Place) (content : Octets) : Except Fault Found → Except Fault Found → Prop where
  | refused {e e' : Fault} : FollowChanged place content (.error e) (.error e')
  | found {here : Place} {n n' : Node} {left : Nat} : n.Changed place content here n' →
      FollowChanged place content (.ok ⟨here, n, left⟩) (.ok ⟨here, n', left⟩)
  | created {e : Fault} {left : Nat} : FollowChanged place content (.error e) (.ok ⟨place, .file content, left⟩)

/-- a path leads to the same place in both file systems, unless it leads to the file -/
theorem follow_of_changed (h : d.Changed place content d') (budget : Nat) (here : Place) (names : List String) :
    FollowChanged place content (d.follow true budget here names) (d'.follow true budget here names) := by
  induction budget generalizing here names with
  | zero =>
    have hs := advance_of_changed h here names
    rw [follow, follow]
    generalize d.advance true here names = s at hs ⊢
    generalize d'.advance true here names = s' at hs ⊢
    cases hs with
    | refused => exact .refused
    | found hn => exact .found hn
    | created => exact .created
    | link => exact .refused
  | succ budget ih =>
    have hs := advance_of_changed h here names
    rw [follow, follow]
    generalize d.advance true here names = s at hs ⊢
    generalize d'.advance true here names = s' at hs ⊢
    cases hs with
    | refused => exact .refused
    | found hn => exact .found hn
    | created => exact .created
    | link => exact ih _ _

theorem resolve_of_changed (h : d.Changed place content d') (path : String) :
    FollowChanged place content (d.resolve true path) (d'.resolve true path) := by
  unfold resolve
  rw [h.start]
  cases checkPath path with
  | error e => exact .refused
  | ok u => exact follow_of_changed h maxLinks (d.start path) (steps path)

/-- a path leads to a place, links followed -/
def Leads (d : Disk) (path : String) (place : Place) : Prop :=
  ∃ n left, d.follow true maxLinks (d.start path) (steps path) = .ok ⟨place, n, left⟩

/-- a path that led to a place leads there still -/
theorem Leads.of_changed {path : String} {p : Place} (h : d.Changed place content d') (hl : d.Leads path p) :
    d'.Leads path p := by
  obtain ⟨n, left, hf⟩ := hl
  have hc := follow_of_changed h maxLinks (d.start path) (steps path)
  rw [hf] at hc
  generalize hf' : d'.follow true maxLinks (d.start path) (steps path) = f' at hc
  rw [← h.start] at hf'
  cases hc with
  | found => exact ⟨_, _, hf'⟩

/-- whether a path leads to the file does not depend on what it holds -/
theorem Leads.of_put (h : d.FilePlace place) {path : String} {a : Octets} (b : Octets)
    (hl : (d.put place (.file a)).Leads path place) : (d.put place (.file b)).Leads path place := by
  rw [← put_put h.ne_nil (.file a) (.file b)]
  exact hl.of_changed ((filePlace_put h a).changed b)

/-- what a path reads is what the node it leads to holds -/
theorem read_eq_ok {path : String} : d.read path = .ok content ↔
    checkPath path = .ok () ∧ ∃ p n left, d.follow true maxLinks (d.start path) (steps path) = .ok ⟨p, n, left⟩ ∧
      contentOf n = .ok content := by
  unfold read resolve
  cases checkPath path with
  | error e => exact ⟨nofun, nofun⟩
  | ok u =>
    simp only [bind, Except.bind]
    cases hf : d.follow true maxLinks (d.start path) (steps path) with
    | error e => exact ⟨nofun, nofun⟩
    | ok f =>
      constructor
      · exact fun h => ⟨trivial, f.place, f.node, f.budget, rfl, h⟩
      · rintro ⟨-, p, n, left, he, hn⟩
        cases he
        exact hn

/-- what is read elsewhere was there before -/
theorem read_of_changed {path : String} {found : Octets} (h : d.Changed place content d')
    (hr : d'.read path = .ok found) (hl : ¬ d'.Leads path place) : d.read path = .ok found := by
  obtain ⟨hc, p, n', left, hf', hn'⟩ := read_eq_ok.1 hr
  have hne : p ≠ place := by
    rintro rfl
    exact hl ⟨_, _, hf'⟩
  have hfollow := follow_of_changed h maxLinks (d.start path) (steps path)
  rw [h.start] at hf'
  rw [hf'] at hfollow
  generalize hf : d.follow true maxLinks (d.start path) (steps path) = f at hfollow
  cases hfollow with
  | created => exact absurd rfl hne
  | found hn =>
    cases hn with
    | same => exact read_eq_ok.2 ⟨hc, p, n', left, hf, hn'⟩
    | written hp => exact absurd hp hne
    | inside => cases hn'

/-- what is read of the file is its content -/
theorem read_of_leads (h : d.FilePlace place) {path : String} {found : Octets}
    (hr : (d.put place (.file content)).read path = .ok found) (hl : (d.put place (.file content)).Leads path place) :
    found = content := by
  obtain ⟨-, p, n, left, hf, hn⟩ := read_eq_ok.1 hr
  obtain ⟨n', left', hf'⟩ := hl
  cases hf.symm.trans hf'
  have hat := at?_of_follow hf
  rw [at?_put h] at hat
  cases hat
  cases hn
  rfl

end

end Disk

/-! ## Names -/

section

variable {place here : Place} {content : Octets} {cs cs' : List (String × Node)}

/-- the names of a directory are as before, but for that of the file -/
theorem Changed.mem_names (h : Changed place content here cs cs') {name : String} (hm : name ∈ cs'.map Prod.fst) :
    name ∈ cs.map Prod.fst ∨ here ++ [name] = place := by
  induction h with
  | same => exact .inl hm
  | created hp =>
    obtain rfl : name = _ := by simpa using hm
    exact .inr hp
  | written | inside => exact .inl (by simpa using hm)
  | later _ _ ih =>
    rcases List.mem_cons.1 hm with rfl | hm
    · exact .inl (by simp)
    · rcases ih hm with hm | hp
      · exact .inl (List.mem_cons_of_mem _ hm)
      · exact .inr hp

/-- directories stay in order when the file has a name in order -/
theorem Changed.proper (h : Changed place content here cs cs') (hp : Proper cs)
    (hname : ∀ above name, above ++ [name] = place → IsName name) : Proper cs' := by
  induction h with
  | same => exact hp
  | created hplace => exact .cons (hname _ _ hplace) (by simp) (by simp) .nil
  | written =>
    cases hp with
    | cons hn hnew _ hrest => exact .cons hn hnew (by simp) hrest
  | inside _ ih =>
    cases hp with
    | cons hn hnew hc hrest =>
      refine .cons hn hnew ?_ hrest
      rintro children ⟨⟩
      exact ih (hc _ rfl)
  | later hne hc ih =>
    cases hp with
    | cons hn hnew hchildren hrest =>
      refine .cons hn (fun hm => ?_) hchildren (ih hrest)
      rcases hc.mem_names hm with hm | hplace
      · exact hnew hm
      · exact hne hplace

end

namespace Disk

variable {d : Disk} {place here : Place}

theorem noSlash_of_mem_steps {path name : String} (h : name ∈ steps path) : '/' ∉ name.toList := by
  obtain ⟨piece, hp, rfl⟩ := List.mem_map.1 h
  rw [String.toList_ofList]
  exact not_mem_of_mem_pieces hp

theorem isName_of_step {name : String} (hslash : '/' ∉ name.toList) (hskip : ¬ (name = "" || name = "."))
    (hup : name ≠ "..") (hlong : ¬ maxName < (utf8Of name).length) : IsName name := by
  simp only [Bool.or_eq_true, decide_eq_true_eq, not_or] at hskip
  exact ⟨hskip.1, hslash, hskip.2, hup, Nat.not_lt.1 hlong⟩

/-- the place of a file to create ends in a name, and a link on the way leaves names to follow -/
theorem isName_of_advanceNew (d : Disk) (here : Place) {names : List String} (hn : ∀ name ∈ names, '/' ∉ name.toList) :
    match d.advanceNew here names with
    | .place place => ∃ above name, place = above ++ [name] ∧ IsName name
    | .link _ _ rest => ∀ name ∈ rest, '/' ∉ name.toList
    | .refused _ => True := by
  fun_induction advanceNew d here names with
  | case2 here name rest hskip ih => exact ih fun name hm => hn name (List.mem_cons_of_mem _ hm)
  | case3 here rest hskip ih => exact ih fun name hm => hn name (List.mem_cons_of_mem _ hm)
  | case6 here name rest hskip hup hend hlong hnone hmade =>
    exact ⟨here, name, rfl, isName_of_step (hn name (List.mem_cons_self ..)) hskip hup hlong⟩
  | case9 here name rest hskip hup hend hlong cs hdir hrest ih =>
    exact ih fun name hm => hn name (List.mem_cons_of_mem _ hm)
  | case10 here name rest hskip hup hend hlong target hlink =>
    exact fun name hm => hn name (List.mem_cons_of_mem _ hm)
  | case11 here name hskip hup hlong old hfile =>
    exact ⟨here, name, rfl, isName_of_step (hn name (List.mem_cons_self ..)) hskip hup hlong⟩
  | case13 here name hskip hup hlong hdevice =>
    exact ⟨here, name, rfl, isName_of_step (hn name (List.mem_cons_self ..)) hskip hup hlong⟩
  | _ => trivial

theorem isName_of_followNew {budget : Nat} {names : List String} (hn : ∀ name ∈ names, '/' ∉ name.toList)
    (h : d.followNew budget here names = .ok place) : ∃ above name, place = above ++ [name] ∧ IsName name := by
  induction budget generalizing here names with
  | zero =>
    have hs := isName_of_advanceNew d here hn
    unfold followNew at h
    split at h
    · rename_i hadv
      cases h
      rw [hadv] at hs
      exact hs
    · cases h
    · cases h
  | succ budget ih =>
    have hs := isName_of_advanceNew d here hn
    unfold followNew at h
    split at h
    · rename_i hadv
      cases h
      rw [hadv] at hs
      exact hs
    · cases h
    · rename_i target rest hadv
      rw [hadv] at hs
      refine ih (fun name hm => ?_) h
      rcases List.mem_append.1 hm with hm | hm
      · exact noSlash_of_mem_steps hm
      · exact hs name hm

/-- a file that is created has a name in order -/
theorem isName_of_create {path : String} {created : Disk} (h : d.create path = .ok (place, created)) (above : Place)
    (name : String) (hp : above ++ [name] = place) : IsName name := by
  obtain ⟨-, hf, -⟩ := create_eq_ok h
  obtain ⟨above', name', hp', hname⟩ := isName_of_followNew (fun _ hm => noSlash_of_mem_steps hm) hf
  rw [← hp] at hp'
  obtain ⟨-, hlast⟩ := List.append_inj' hp' rfl
  cases hlast
  exact hname

/-- a file system in order stays so when a file is created in it -/
theorem Proper.create {path : String} {created : Disk} (hd : d.Proper) (h : d.create path = .ok (place, created)) :
    created.Proper := by
  obtain ⟨hf | hdevice, rfl, -⟩ := read_of_create h
  · rw [store_of_filePlace hf]
    exact (hf.changed []).entries.proper hd (isName_of_create h)
  · rwa [store_of_isDevice hdevice]

end Disk

end ImportHarvest

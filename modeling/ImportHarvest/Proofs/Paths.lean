import ImportHarvest.LocalTree
import ImportHarvest.Proofs.Disk
import ImportHarvest.Proofs.JoinedNames
/-!
Paths on a disk whose names are in order.

A child of a directory is found under its name (`Proper.at?_child`), and a path that leads to a directory leads on from
it, with the links that are left (`follow_append`). So the path that a walk shows for a record leads where the walk
stands: `Position.Stands` says so of a directory, and it passes from a directory to those below it and to those that its
links lead to (`Stands.enter`, `Stands.enter_linked`). A path with slashes at its end leads where it does without them, as
long as it is not too long (`resolve_slashes`).
-/

namespace ImportHarvest

open Text

/-! ## Names -/

/-- a name that an entry of a directory may have -/
structure IsName (name : String) : Prop where
  nonempty : name ≠ ""
  noSlash : '/' ∉ name.toList
  notHere : name ≠ "."
  notAbove : name ≠ ".."
  short : (utf8Of name).length ≤ Disk.maxName

theorem isName_iff (name : String) : IsName name ↔
    name ≠ "" ∧ '/' ∉ name.toList ∧ name ≠ "." ∧ name ≠ ".." ∧ (utf8Of name).length ≤ Disk.maxName :=
  ⟨fun h => ⟨h.nonempty, h.noSlash, h.notHere, h.notAbove, h.short⟩,
    fun h => ⟨h.1, h.2.1, h.2.2.1, h.2.2.2.1, h.2.2.2.2⟩⟩

instance (name : String) : Decidable (IsName name) := decidable_of_iff' _ (isName_iff name)

theorem IsName.pathName {name : String} (h : IsName name) : PathName name := ⟨h.nonempty, h.noSlash⟩

/-- the children of a directory have names, no two the same one, and so have those of the directories among them -/
inductive Proper : List (String × Node) → Prop where
  | nil : Proper []
  | cons {name : String} {n : Node} {rest : List (String × Node)} : IsName name → name ∉ rest.map Prod.fst →
      (∀ children, n = .directory children → Proper children) → Proper rest → Proper ((name, n) :: rest)

namespace Proper

variable {cs : List (String × Node)} {name : String} {n : Node}

theorem isName (h : Proper cs) (hm : (name, n) ∈ cs) : IsName name := by
  induction h with
  | nil => cases hm
  | cons hn _ _ _ _ ih =>
    rcases List.mem_cons.1 hm with hm | hm
    · cases hm
      exact hn
    · exact ih hm

theorem children (h : Proper cs) {children : List (String × Node)} (hm : (name, .directory children) ∈ cs) :
    Proper children := by
  induction h with
  | nil => cases hm
  | cons _ _ hc _ _ ih =>
    rcases List.mem_cons.1 hm with hm | hm
    · cases hm
      exact hc _ rfl
    · exact ih hm

theorem lookup (h : Proper cs) (hm : (name, n) ∈ cs) : cs.lookup name = some n := by
  induction h with
  | nil => cases hm
  | @cons other m rest _ hnew _ _ _ ih =>
    rcases List.mem_cons.1 hm with hfirst | hrest
    · cases hfirst
      simp
    · have hne : name ≠ other := by
        rintro rfl
        exact hnew (List.mem_map_of_mem hrest)
      rw [List.lookup_cons, beq_false_of_ne hne]
      exact ih hrest

/-- the children of every directory below are in order -/
theorem at? (h : Proper cs) {place : Place} {children : List (String × Node)}
    (hat : (Node.directory cs).at? place = some (.directory children)) : Proper children := by
  induction place generalizing cs with
  | nil =>
    cases hat
    exact h
  | cons first rest ih =>
    obtain ⟨cs', c, hcs, hl, hc⟩ := Node.at?_cons_eq_some hat
    cases hcs
    cases c with
    | directory below =>
      have hm : (first, Node.directory below) ∈ cs := by
        obtain ⟨l₁, l₂, rfl, -⟩ := List.lookup_eq_some_iff.1 hl
        simp
      exact ih (h.children hm) hc
    | _ => cases rest <;> simp [Node.at?, Node.child?] at hc

end Proper

/-- all directories of the disk are in order -/
def Disk.Proper (d : Disk) : Prop := ImportHarvest.Proper d.entries

theorem Disk.at?_child {d : Disk} {here : Place} {cs : List (String × Node)} {name : String} {n : Node}
    (hd : d.at? here = some (.directory cs)) (h : ImportHarvest.Proper cs) (hm : (name, n) ∈ cs) :
    d.at? (here ++ [name]) = some n := by
  rw [at?, Node.at?_append]
  rw [at?] at hd
  rw [hd]
  simp [Node.at?, Node.child?, h.lookup hm]

/-- these children lie in the directory at that place, under names in order -/
def Disk.Holds (d : Disk) (here : Place) (cs : List (String × Node)) : Prop :=
  ∀ name n, (name, n) ∈ cs → IsName name ∧ d.at? (here ++ [name]) = some n

section

variable {d : Disk} {here : Place} {cs : List (String × Node)} {name : String} {n : Node}

theorem Proper.holds (hp : Proper cs) (hd : d.at? here = some (.directory cs)) : d.Holds here cs :=
  fun _ _ hm => ⟨hp.isName hm, Disk.at?_child hd hp hm⟩

theorem Disk.Proper.holds (hp : d.Proper) (hd : d.at? here = some (.directory cs)) : d.Holds here cs :=
  ImportHarvest.Proper.holds (hp.at? hd) hd

theorem Disk.Holds.head (h : d.Holds here ((name, n) :: cs)) : IsName name ∧ d.at? (here ++ [name]) = some n :=
  h name n (List.mem_cons_self ..)

theorem Disk.Holds.tail (h : d.Holds here ((name, n) :: cs)) : d.Holds here cs :=
  fun other m hm => h other m (List.mem_cons_of_mem _ hm)

end

/-! ## Following on -/

namespace Disk

variable {d : Disk} {here place : Place} {a : List String}

/-- what names lead to is what stands at that place -/
theorem at?_of_advance {followLast : Bool} {n : Node} (h : d.advance followLast here a = .found place n) :
    d.at? place = some n := by
  fun_induction advance d followLast here a with
  | case1 here n hn =>
    cases h
    exact hn
  | case3 here name rest hskip ih => exact ih h
  | case4 here rest hskip ih => exact ih h
  | case7 here name rest hskip hup hlong below hdir ih => exact ih h
  | case8 here name rest hskip hup hlong target hlink hlast =>
    cases h
    exact hlink
  | case10 here name hskip hup hlong n hdir hlink hat =>
    cases h
    exact hat
  | _ => cases h

theorem at?_of_follow {followLast : Bool} {budget : Nat} {f : Found} (h : d.follow followLast budget here a = .ok f) :
    d.at? f.place = some f.node := by
  induction budget generalizing here a with
  | zero =>
    unfold follow at h
    split at h
    · rename_i hadv
      cases h
      exact at?_of_advance hadv
    · cases h
    · cases h
  | succ n ih =>
    unfold follow at h
    split at h
    · rename_i hadv
      cases h
      exact at?_of_advance hadv
    · cases h
    · exact ih h

theorem advance_append {cs : List (String × Node)} (h : d.advance true here a = .found place (.directory cs))
    (b : List String) : d.advance true here (a ++ b) = d.advance true place b := by
  fun_induction advance d true here a with
  | case1 here n hn =>
    cases h
    rfl
  | case3 here name rest hskip ih => rw [List.cons_append, advance, if_pos hskip, ih h]
  | case4 here rest hskip ih => rw [List.cons_append, advance, if_neg hskip, if_pos rfl, ih h]
  | case7 here name rest hskip hup hlong below hdir ih =>
    rw [List.cons_append, advance, if_neg hskip, if_neg hup, if_neg hlong, hdir]
    exact ih h
  | case8 here name rest hskip hup hlong target hlink hlast => simp at hlast
  | case10 here name hskip hup hlong n hdir =>
    cases h
    exact (hdir _ rfl).elim
  | _ => cases h

theorem advance_append_link {rest : List String} {target : String}
    (h : d.advance true here a = .link place target rest) (b : List String) :
    d.advance true here (a ++ b) = .link place target (rest ++ b) := by
  fun_induction advance d true here a with
  | case3 here name rest hskip ih => rw [List.cons_append, advance, if_pos hskip, ih h]
  | case4 here rest hskip ih => rw [List.cons_append, advance, if_neg hskip, if_pos rfl, ih h]
  | case7 here name rest hskip hup hlong below hdir ih =>
    rw [List.cons_append, advance, if_neg hskip, if_neg hup, if_neg hlong, hdir]
    exact ih h
  | case9 here name rest hskip hup hlong target hlink hlast =>
    cases h
    rw [List.cons_append, advance, if_neg hskip, if_neg hup, if_neg hlong, hlink]
    simp
  | _ => cases h

/-- names that lead to a directory lead on from its place, with the links that are left -/
theorem follow_append {budget left : Nat} {cs : List (String × Node)}
    (h : d.follow true budget here a = .ok ⟨place, .directory cs, left⟩) (b : List String) :
    d.follow true budget here (a ++ b) = d.follow true left place b := by
  induction budget generalizing here a with
  | zero =>
    unfold follow at h
    split at h
    · rename_i hadv
      cases h
      rw [follow, advance_append hadv, ← follow]
    · cases h
    · cases h
  | succ n ih =>
    unfold follow at h
    split at h
    · rename_i hadv
      cases h
      rw [follow, advance_append hadv, ← follow]
    · cases h
    · rename_i hadv
      rw [follow, advance_append_link hadv]
      dsimp only
      rw [← List.append_assoc]
      exact ih h

/-- an empty name with others behind it changes nothing -/
theorem advance_empty (here : Place) (a : List String) {b : List String} (hb : b ≠ []) :
    (∃ at' target rest, d.advance true here (a ++ "" :: b) = .link at' target (rest ++ "" :: b) ∧
      d.advance true here (a ++ b) = .link at' target (rest ++ b)) ∨
    d.advance true here (a ++ "" :: b) = d.advance true here (a ++ b) := by
  induction a generalizing here with
  | nil =>
    refine .inr ?_
    rw [List.nil_append, List.nil_append, advance]
    simp
  | cons name a ih =>
    rw [List.cons_append, List.cons_append, advance, advance]
    have h₁ : a ++ "" :: b ≠ [] := by simp
    have h₂ : a ++ b ≠ [] := by simp [hb]
    by_cases hskip : name = "" || name = "."
    · rw [if_pos hskip, if_pos hskip]
      exact ih here
    by_cases hup : name = ".."
    · rw [if_neg hskip, if_neg hskip, if_pos hup, if_pos hup]
      exact ih here.dropLast
    by_cases hlong : maxName < (utf8Of name).length
    · rw [if_neg hskip, if_neg hskip, if_neg hup, if_neg hup, if_pos hlong, if_pos hlong]
      exact .inr rfl
    rw [if_neg hskip, if_neg hskip, if_neg hup, if_neg hup, if_neg hlong, if_neg hlong]
    cases hat : d.at? (here ++ [name]) with
    | none => exact .inr rfl
    | some n =>
      cases n with
      | directory cs => exact ih (here ++ [name])
      | link target => exact .inl ⟨here, target, a, by simp, by simp⟩
      | file content => exact .inr (by simp [h₂])
      | special => exact .inr (by simp [h₂])

theorem follow_empty (budget : Nat) (here : Place) (a : List String) {b : List String} (hb : b ≠ []) :
    d.follow true budget here (a ++ "" :: b) = d.follow true budget here (a ++ b) := by
  induction budget generalizing here a with
  | zero =>
    rcases advance_empty (d := d) here a hb with ⟨at', target, rest, h₁, h₂⟩ | h
    · rw [follow, follow, h₁, h₂]
    · rw [follow, follow, h]
  | succ n ih =>
    rcases advance_empty (d := d) here a hb with ⟨at', target, rest, h₁, h₂⟩ | h
    · rw [follow, follow, h₁, h₂]
      dsimp only
      rw [← List.append_assoc, ← List.append_assoc]
      exact ih (base at' target) (steps target ++ rest)
    · rw [follow, follow, h]

/-- a name that is added to a path goes behind its names, and takes the place of an empty one at their end -/
theorem steps_joinPath (path : String) {name : String} (hn : '/' ∉ name.toList) :
    steps (joinPath path name) = steps path ++ [name] ∨
      ∃ front, steps path = front ++ [""] ∧ steps (joinPath path name) = front ++ [name] := by
  have hlast : (pieces '/' name.toList).map String.ofList = [name] := by
    rw [pieces_of_not_mem hn, List.map_singleton, String.ofList_toList]
  unfold joinPath
  by_cases hend : endsWith "/" path = true
  · obtain ⟨s, hs⟩ := endsWith_iff.1 hend
    rw [if_pos (by rw [hend, Bool.or_true])]
    refine .inr ⟨(pieces '/' s).map String.ofList, ?_, ?_⟩
    · rw [steps, splitOn, ← hs]
      change (pieces '/' (s ++ '/' :: [])).map String.ofList = _
      rw [pieces_append, List.map_append]
      rfl
    · rw [steps, splitOn, String.toList_append, ← hs]
      change (pieces '/' (s ++ ['/'] ++ name.toList)).map String.ofList = _
      rw [List.append_assoc, List.singleton_append, pieces_append, List.map_append, hlast]
  · by_cases hempty : path = ""
    · subst hempty
      rw [if_pos (by decide)]
      exact .inr ⟨[], rfl, by rw [String.empty_append, steps, splitOn, hlast]; rfl⟩
    · rw [if_neg (by simpa [hempty] using hend)]
      left
      rw [steps, splitOn, String.toList_append, String.toList_append, List.append_assoc]
      change (pieces '/' (path.toList ++ '/' :: name.toList)).map String.ofList = _
      rw [pieces_append, List.map_append, hlast]
      rfl

theorem startsWith_joinPath (path : String) {name : String} (hn : '/' ∉ name.toList) :
    startsWith "/" (joinPath path name) = startsWith "/" path := by
  unfold startsWith joinPath
  cases hp : path.toList with
  | nil =>
    obtain rfl : path = "" := String.toList_inj.1 hp
    cases hname : name.toList with
    | nil => simp [hname]
    | cons c cs =>
      rw [hname] at hn
      have hc : '/' ≠ c := fun he => hn (he ▸ List.mem_cons_self)
      simp [hname, dropStart?, hc]
  | cons c cs =>
    have hhead (more : List Char) : (dropStart? "/".toList (c :: more)).isSome = decide ('/' = c) := by
      change (if '/' = c then some more else none).isSome = _
      split
      · exact (decide_eq_true ‹_›).symm
      · exact (decide_eq_false ‹_›).symm
    split <;> simp only [String.toList_append, hp, List.cons_append, hhead]

/-- a path with a name added to it starts where the path does -/
theorem start_joinPath (d : Disk) (path : String) {name : String} (hn : '/' ∉ name.toList) :
    d.start (joinPath path name) = d.start path := by
  rw [start, start, base, base, startsWith_joinPath path hn]

/-- a path with a name added to it leads where the path leads and on by the name -/
theorem follow_joinPath (budget : Nat) (here : Place) (path : String) {name : String} (hn : '/' ∉ name.toList)
    (rest : List String) : d.follow true budget here (steps (joinPath path name) ++ rest) =
      d.follow true budget here (steps path ++ name :: rest) := by
  rcases steps_joinPath path hn with h | ⟨front, hpath, hjoined⟩
  · rw [h, List.append_assoc, List.singleton_append]
  · rw [hpath, hjoined, List.append_assoc, List.append_assoc]
    exact (follow_empty budget here front (by simp)).symm

/-- a name is followed to what stands under it -/
theorem advance_name {name : String} (hn : IsName name) (here : Place) (rest : List String) :
    d.advance true here (name :: rest) =
      match d.at? (here ++ [name]) with
      | none => .refused .notFound
      | some (.directory _) => d.advance true (here ++ [name]) rest
      | some (.link target) => .link here target rest
      | some n => if rest = [] then .found (here ++ [name]) n else .refused .notDirectory := by
  have hskip : ¬ (name = "" || name = ".") := by simp [hn.nonempty, hn.notHere]
  rw [advance, if_neg hskip, if_neg hn.notAbove, if_neg (Nat.not_lt.2 hn.short)]
  cases d.at? (here ++ [name]) with
  | none => rfl
  | some n => cases n <;> simp

theorem follow_of_resolve {followLast : Bool} {path : String} {f : Found} (h : d.resolve followLast path = .ok f) :
    checkPath path = .ok () ∧ d.follow followLast maxLinks (d.start path) (steps path) = .ok f := by
  unfold resolve at h
  cases hc : checkPath path with
  | error e =>
    rw [hc] at h
    cases h
  | ok u =>
    rw [hc] at h
    exact ⟨rfl, h⟩

end Disk

/-! ## Where a walk stands -/

namespace LocalTree.Position

variable {d : Disk} {budget : Nat} {p : Position}

/-- the path that is shown leads where the walk stands, and on from there with the links that are left -/
def Stands (d : Disk) (budget : Nat) (p : Position) : Prop :=
  ∀ rest, rest ≠ [] →
    d.follow true Disk.maxLinks (d.start p.shown) (Disk.steps p.shown ++ rest) = d.follow true budget p.place rest

/-- the path of a child leads where its name leads -/
theorem Stands.follow_child (h : p.Stands d budget) {name : String} (hn : IsName name) (rest : List String) :
    d.follow true Disk.maxLinks (d.start (joinPath p.shown name)) (Disk.steps (joinPath p.shown name) ++ rest) =
      d.follow true budget p.place (name :: rest) := by
  rw [Disk.start_joinPath d _ hn.noSlash, Disk.follow_joinPath _ _ _ hn.noSlash]
  exact h (name :: rest) (List.cons_ne_nil _ _)

theorem stands_root {root : String} {place : Place} {cs : List (String × Node)}
    (h : d.resolve true root = .ok ⟨place, .directory cs, budget⟩) (names : List String) (within : List Place) :
    Stands d budget ⟨root, names, place, within⟩ := by
  intro rest _
  exact Disk.follow_append (Disk.follow_of_resolve h).2 rest

/-- a walk that goes into a directory stands there -/
theorem Stands.enter (h : p.Stands d budget) {name : String} (hn : IsName name) {cs : List (String × Node)}
    (hat : d.at? (p.place ++ [name]) = some (.directory cs)) :
    (p.enter name (p.place ++ [name])).Stands d budget := by
  intro rest _
  change d.follow true Disk.maxLinks (d.start (joinPath p.shown name)) (Disk.steps (joinPath p.shown name) ++ rest) = _
  rw [h.follow_child hn, Disk.follow, Disk.advance_name hn, hat, ← Disk.follow]
  rfl

/-- what a link leads to is what its target leads to with one link less -/
theorem linked_eq_ok {name target : String} {f : Disk.Found} (hl : p.linked d budget name target = .ok f) :
    ∃ left, budget = left + 1 ∧ d.follow true left (Disk.base p.place target) (Disk.steps target) = .ok f := by
  unfold linked at hl
  split at hl
  · cases hl
  · cases budget with
    | zero => cases hl
    | succ left => exact ⟨left, rfl, hl⟩

/-- the path of a link leads on from its target -/
theorem Stands.follow_linked (h : p.Stands d (budget + 1)) {name target : String} (hn : IsName name)
    (hat : d.at? (p.place ++ [name]) = some (.link target)) (rest : List String) :
    d.follow true Disk.maxLinks (d.start (joinPath p.shown name)) (Disk.steps (joinPath p.shown name) ++ rest) =
      d.follow true budget (Disk.base p.place target) (Disk.steps target ++ rest) := by
  rw [h.follow_child hn, Disk.follow, Disk.advance_name hn, hat]

/-- a walk that goes where a link leads stands there -/
theorem Stands.enter_linked (h : p.Stands d budget) {name target : String} (hn : IsName name)
    (hat : d.at? (p.place ++ [name]) = some (.link target)) {place : Place} {cs : List (String × Node)} {left : Nat}
    (hl : p.linked d budget name target = .ok ⟨place, .directory cs, left⟩) : (p.enter name place).Stands d left := by
  obtain ⟨budget, rfl, hf⟩ := linked_eq_ok hl
  intro rest _
  exact (h.follow_linked hn hat rest).trans (Disk.follow_append hf rest)

end LocalTree.Position

/-! ## Paths that are too long

A path may name a directory and still be too long for what is in it. -/

/-- the working directory, with so many slashes behind it -/
def slashes (n : Nat) : String := String.ofList ('.' :: List.replicate n '/')

theorem slashes_succ (n : Nat) : slashes (n + 1) = slashes n ++ "/" := by
  rw [← String.toList_inj]
  simp [slashes, List.replicate_succ']

theorem length_slashes (n : Nat) : (utf8Of (slashes n)).length = n + 1 := by
  induction n with
  | zero => decide
  | succ n ih =>
    rw [slashes_succ, utf8Of_append, List.length_append, ih]
    rfl

theorem joinPath_slashes (n : Nat) (name : String) : joinPath (slashes (n + 1)) name = slashes (n + 1) ++ name := by
  have hends : endsWith "/" (slashes (n + 1)) = true :=
    endsWith_iff.2 ⟨(slashes n).toList, by rw [slashes_succ, String.toList_append]⟩
  rw [joinPath, if_pos (by rw [hends, Bool.or_true])]

/-- the slashes lead nowhere else -/
theorem mem_steps_slashes {n : Nat} {name : String} (h : name ∈ Disk.steps (slashes n)) : name = "" ∨ name = "." := by
  induction n with
  | zero => exact .inr (by simpa [Disk.steps, splitOn, slashes, pieces] using h)
  | succ n ih =>
    have hsteps : Disk.steps (slashes (n + 1)) = Disk.steps (slashes n) ++ [""] := by
      rw [slashes_succ, Disk.steps, splitOn, String.toList_append]
      change (pieces '/' ((slashes n).toList ++ '/' :: [])).map String.ofList = _
      rw [pieces_append, List.map_append]
      rfl
    rw [hsteps, List.mem_append, List.mem_singleton] at h
    rcases h with h | h
    · exact ih h
    · exact .inl h

theorem advance_of_skipped {d : Disk} {here : Place} {names : List String}
    (h : ∀ name ∈ names, name = "" ∨ name = ".") : d.advance true here names = d.advance true here [] := by
  induction names with
  | nil => rfl
  | cons name names ih =>
    have hskip : name = "" || name = "." := by simpa using h name (List.mem_cons_self ..)
    refine Eq.trans ?_ (ih fun other ho => h other (List.mem_cons_of_mem _ ho))
    rw [Disk.advance, if_pos hskip]

/-- a path that is short enough leads to the working directory, however many slashes it ends in -/
theorem resolve_slashes {d : Disk} {n : Nat} (h : n + 1 < Disk.maxPath) {node : Node} (hat : d.at? d.here = some node) :
    d.resolve true (slashes n) = .ok ⟨d.here, node, Disk.maxLinks⟩ := by
  have hnul : (slashes n).toList.contains '\x00' = false := by simp [slashes]
  have hempty : (slashes n).isEmpty = false := by simp [slashes]
  have hcheck : Disk.checkPath (slashes n) = .ok () := by
    rw [Disk.checkPath, hnul, hempty, length_slashes, if_neg (Nat.not_le.2 h)]
    rfl
  have hstart : d.start (slashes n) = d.here := by
    have hdot : startsWith "/" (slashes n) = false := by simp [startsWith, slashes, dropStart?]
    rw [Disk.start, Disk.base, hdot, if_neg Bool.false_ne_true]
  have hfollow : d.follow true Disk.maxLinks (d.start (slashes n)) (Disk.steps (slashes n)) =
      .ok ⟨d.here, node, Disk.maxLinks⟩ := by
    rw [Disk.follow, advance_of_skipped fun name hm => mem_steps_slashes hm, hstart, Disk.advance, hat]
  rw [Disk.resolve, hcheck]
  exact hfollow

/-- what is in the directory has a path that is too long when there is no room for its name -/
theorem checkPath_below_slashes {n : Nat} {name : String} (hnul : '\x00' ∉ name.toList)
    (h : Disk.maxPath ≤ n + 2 + (utf8Of name).length) :
    Disk.checkPath (joinPath (slashes (n + 1)) name) = .error .nameTooLong := by
  have hnul' : (slashes (n + 1) ++ name).toList.contains '\x00' = false := by simp [slashes, hnul]
  have hempty : (slashes (n + 1) ++ name).isEmpty = false := by simp [slashes]
  have hlength : (utf8Of (slashes (n + 1) ++ name)).length = n + 2 + (utf8Of name).length := by
    rw [utf8Of_append, List.length_append, length_slashes]
  rw [joinPath_slashes, Disk.checkPath, hnul', hempty, hlength, if_pos h]
  rfl

end ImportHarvest

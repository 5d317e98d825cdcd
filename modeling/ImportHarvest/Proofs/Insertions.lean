import ImportHarvest.NameSet
import Mathlib.Data.Finset.Card
/-!
Names inserted into a set, one after the other.

A set keeps the names that went into it (`NameSet.Keeps`) when it lists them, each of them once, at the place where it
first occurred. One insertion keeps that up (`NameSet.Keeps.insert`), hence any number of insertions does, whatever names
the set was collected from (`NameSet.keeps_insertAll`). What the insertions answer, what the index holds and which sets
are the same is read off the list.
-/

namespace ImportHarvest.NameSet

/-! ## The list -/

theorem mem_index_iff {s : NameSet} {x : String} : x ∈ s.index ↔ x ∈ s.toList :=
  (s.mem_index x).trans Array.mem_toList_iff.symm

theorem toList_insert (s : NameSet) (name : String) :
    (s.insert name).2.toList = if name ∈ s.toList then s.toList else s.toList ++ [name] := by
  unfold NameSet.insert
  by_cases h : name ∈ s.index
  · rw [dif_pos h, if_pos (mem_index_iff.1 h)]
  · rw [dif_neg h, if_neg (mt mem_index_iff.2 h)]
    exact Array.toList_push

/-- names that are added stand at the end, without those that were there -/
theorem toList_insertAll (s : NameSet) (names : List String) :
    (s.insertAll names).toList = s.toList ++ (names.removeAll s.toList).eraseDups := by
  induction names generalizing s with
  | nil => simp [NameSet.insertAll]
  | cons name names ih =>
    have hs : s.insertAll (name :: names) = (s.insert name).2.insertAll names := rfl
    rw [hs, ih, toList_insert, List.cons_removeAll]
    by_cases h : name ∈ s.toList
    · rw [if_pos h, if_neg (by simpa using h)]
    · have hr : names.removeAll (s.toList ++ [name]) = (names.removeAll s.toList).filter fun x => !x == name := by
        rw [List.removeAll, List.removeAll, List.filter_filter]
        refine List.filter_congr fun x _ => ?_
        by_cases hx : x = name <;> simp [hx]
      rw [if_neg h, if_pos (by simpa using h), List.eraseDups_cons, List.append_assoc, List.singleton_append, hr]

theorem toList_ofList (names : List String) : (NameSet.ofList names).toList = names.eraseDups := by
  have he : NameSet.empty.toList = [] := rfl
  rw [NameSet.ofList, toList_insertAll, he, List.nil_append, List.removeAll_nil]

section

variable {s t : NameSet} {names : List String}

/-! ## What a set tells of the names that went into it -/

/-- the set lists the names that went into it, in the order in which each of them first did -/
structure Keeps (s : NameSet) (names : List String) : Prop where
  mem : ∀ x, x ∈ s.toList ↔ x ∈ names
  order : s.toList.Pairwise fun x y => names.idxOf x < names.idxOf y

theorem keeps_empty : empty.Keeps [] := ⟨fun _ => Iff.rfl, List.Pairwise.nil⟩

/-- **One insertion**: the name goes to the end if it is new, and nothing changes otherwise -/
theorem Keeps.insert (h : s.Keeps names) (name : String) : (s.insert name).2.Keeps (names ++ [name]) := by
  have hplace : ∀ x ∈ s.toList, (names ++ [name]).idxOf x = names.idxOf x :=
    fun x hx => List.idxOf_append_of_mem ((h.mem x).1 hx)
  have hold : s.toList.Pairwise fun x y => (names ++ [name]).idxOf x < (names ++ [name]).idxOf y := by
    refine h.order.imp_of_mem fun {x y} hx hy hxy => ?_
    rwa [hplace x hx, hplace y hy]
  by_cases hn : name ∈ s.toList
  · have hlist : (s.insert name).2.toList = s.toList := by rw [toList_insert, if_pos hn]
    refine ⟨fun x => ?_, by rwa [hlist]⟩
    rw [hlist, List.mem_append, List.mem_singleton, h.mem]
    exact ⟨.inl, fun hx => hx.elim id fun e => e ▸ (h.mem name).1 hn⟩
  · have hlist : (s.insert name).2.toList = s.toList ++ [name] := by rw [toList_insert, if_neg hn]
    refine ⟨fun x => ?_, ?_⟩
    · rw [hlist, List.mem_append, List.mem_append, h.mem]
    · rw [hlist, List.pairwise_append]
      refine ⟨hold, List.pairwise_singleton _ _, fun x hx y hy => ?_⟩
      -- a new name first occurs at the end, behind all that are listed
      obtain rfl := List.mem_singleton.1 hy
      have hx' : names.idxOf x < names.length := List.idxOf_lt_length_iff.2 ((h.mem x).1 hx)
      rw [hplace x hx, List.idxOf_append_of_notMem fun hy' => hn ((h.mem y).2 hy')]
      omega

theorem Keeps.insertAll (h : s.Keeps names) (more : List String) : (s.insertAll more).Keeps (names ++ more) := by
  induction more generalizing s names with
  | nil => rwa [List.append_nil]
  | cons name more ih =>
    have hrest := ih (h.insert name)
    rwa [List.append_assoc, List.singleton_append] at hrest

/-- **Every sequence of insertions**, into a set that was collected from any names -/
theorem keeps_insertAll (collected inserted : List String) :
    ((ofList collected).insertAll inserted).Keeps (collected ++ inserted) :=
  (keeps_empty.insertAll collected).insertAll inserted

theorem Keeps.nodup (h : s.Keeps names) : s.toList.Nodup :=
  h.order.imp fun hlt e => absurd hlt (by rw [e]; exact lt_irrefl _)

theorem Keeps.size_eq (h : s.Keeps names) : s.size = names.toFinset.card := by
  have hsame : s.toList.toFinset = names.toFinset := by
    ext x
    rw [List.mem_toFinset, List.mem_toFinset, h.mem]
  rw [← hsame, List.toFinset_card_of_nodup h.nodup]
  exact Array.length_toList.symm

/-! ## What the insertions answer -/

/-- what the insertions of names, one after the other, answer: whether each name is new -/
def insertAnswers (s : NameSet) : List String → List Bool
  | [] => []
  | name :: names => (s.insert name).1 :: (s.insert name).2.insertAnswers names

theorem insert_fst (s : NameSet) (name : String) : (s.insert name).1 = decide (name ∉ s.toList) := by
  unfold NameSet.insert
  by_cases h : name ∈ s.index
  · simp [h, mem_index_iff.1 h]
  · simp [h, mt mem_index_iff.2 h]

theorem Keeps.insertAnswers_eq (h : s.Keeps names) (more : List String) :
    s.insertAnswers more = more.mapIdx fun i name => decide (name ∉ names ++ more.take i) := by
  induction more generalizing s names with
  | nil => rfl
  | cons name more ih =>
    have hfirst : (s.insert name).1 = decide (name ∉ names) := by simp only [insert_fst, h.mem]
    rw [insertAnswers, hfirst, ih (h.insert name), List.mapIdx_cons]
    simp

/-! ## The index -/

/-- the index holds the listed names, and each of them once -/
theorem index_perm (s : NameSet) : s.index.toList.Perm s.toList := by
  have hindex : s.index.toList.Nodup := s.index.distinct_toList.imp ne_of_beq_false
  refine (List.perm_ext_iff_of_nodup hindex s.nodup).2 fun x => ?_
  exact Std.HashSet.mem_toList.trans mem_index_iff

theorem contains_iff {x : String} : s.contains x = true ↔ x ∈ s.toList :=
  Std.HashSet.mem_iff_contains.symm.trans mem_index_iff

/-- sets that list the same names in the same order are the same, since their indexes hold the same names -/
theorem beq_iff : (s == t) = true ↔ s.toList = t.toList := by
  have hbeq : (s == t) = (s.names == t.names && s.index.beq t.index) := rfl
  have hnames : (s.names == t.names) = true ↔ s.toList = t.toList := beq_iff_eq.trans Array.toList_inj.symm
  have hindex : s.index.beq t.index = true ↔ s.index.Equiv t.index := Std.HashSet.beq_iff_equiv
  rw [hbeq, Bool.and_eq_true, hnames, hindex]
  refine ⟨And.left, fun h => ⟨h, .of_forall_mem_iff fun x => ?_⟩⟩
  rw [mem_index_iff, mem_index_iff, h]

end

/-- what a set shows of the names that were seen: it lists them and no others, without repeats, one before another when
it was first seen before it; it contains just these names, and its size is the number of different ones; its index
enumerates the names of its list -/
structure Shows (s : NameSet) (seen : List String) : Prop extends Keeps s seen where
  nodup : s.toList.Nodup
  contains : ∀ x, s.contains x = true ↔ x ∈ seen
  size : s.size = seen.toFinset.card
  index : s.index.toList.Perm s.toList

/-- **A set shows the names that were inserted, in the order in which each was first seen.** Take a new set, or one
collected from any names, and insert any names into it. It then shows all of them. Each insertion has answered whether
its name was not among those before it, and a set is the same as this one exactly when it lists the same names in the
same order. -/
theorem first_seen_of_insertions (collected inserted : List String) :
    Shows ((ofList collected).insertAll inserted) (collected ++ inserted) ∧
      (ofList collected).insertAnswers inserted =
        inserted.mapIdx (fun i name => decide (name ∉ collected ++ inserted.take i)) ∧
      ∀ t : NameSet, ((ofList collected).insertAll inserted == t) = true ↔
        ((ofList collected).insertAll inserted).toList = t.toList := by
  have h := keeps_insertAll collected inserted
  have hstart : (ofList collected).Keeps collected := keeps_empty.insertAll collected
  refine ⟨⟨h, h.nodup, fun x => ?_, h.size_eq, index_perm _⟩, hstart.insertAnswers_eq inserted, fun _ => beq_iff⟩
  rw [contains_iff, h.mem]

end ImportHarvest.NameSet

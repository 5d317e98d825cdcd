import Std.Data.HashSet
/-!
A set of names that remembers the order in which they were first seen. The names stand in a list; an index beside it
answers membership, and the two always hold the same names.
-/

namespace ImportHarvest

/-- names in first-seen order, without repeats, beside an index of the same names -/
structure NameSet where
  names : Array String
  index : Std.HashSet String
  nodup : names.toList.Nodup
  mem_index : ∀ x, x ∈ index ↔ x ∈ names

namespace NameSet

/-- no names -/
def empty : NameSet := ⟨#[], ∅, by simp, by simp⟩

/-- whether a name was seen -/
def contains (s : NameSet) (name : String) : Bool := s.index.contains name

/-- the set with a name added at the end, unless it was seen before, and whether it is new -/
def insert (s : NameSet) (name : String) : Bool × NameSet :=
  if h : name ∈ s.index then (false, s)
  else
    (true,
      { names := s.names.push name
        index := s.index.insert name
        nodup := by
          have h' : name ∉ s.names.toList := by simpa using fun m => h ((s.mem_index name).2 m)
          have ne : ∀ a ∈ s.names, a ≠ name := fun a ha e => h' (by simpa [e] using ha)
          simpa [List.nodup_append, s.nodup] using ne
        mem_index := fun x => by
          simp only [Std.HashSet.mem_insert, Array.mem_push, s.mem_index x, beq_iff_eq]
          exact ⟨fun h => h.elim (fun e => .inr e.symm) .inl, fun h => h.elim .inr (fun e => .inl e.symm)⟩ })

/-- the set with a list of names added, one after the other -/
def insertAll (s : NameSet) (names : List String) : NameSet := names.foldl (fun s name => (s.insert name).2) s

/-- the names of a list in first-seen order -/
def ofList (names : List String) : NameSet := empty.insertAll names

/-- the names in first-seen order -/
def toList (s : NameSet) : List String := s.names.toList

/-- how many names there are -/
def size (s : NameSet) : Nat := s.names.size

/-- whether there are none -/
def isEmpty (s : NameSet) : Bool := s.names.isEmpty

/-- two sets are the same when their lists are, and their indexes hold the same names -/
instance : BEq NameSet := ⟨fun a b => a.names == b.names && a.index.beq b.index⟩

/-- the names in braces -/
def render (s : NameSet) : String := "\x7b" ++ ", ".intercalate s.toList ++ "\x7d"

end NameSet

end ImportHarvest

import ImportHarvest.Proofs.Trimmed
import Mathlib.Data.List.Induction
/-!
Names put together with slashes.

A name of a path is not empty and holds no slash, so a path keeps its names: it neither starts nor ends with a slash
(`head_join`, `last_join`), and other names make another path (`join_injective`).
-/

namespace ImportHarvest

open Text

/-- a name that a path may go through -/
structure PathName (name : String) : Prop where
  nonempty : name ≠ ""
  noSlash : '/' ∉ name.toList

theorem pathName_iff (name : String) : PathName name ↔ name ≠ "" ∧ '/' ∉ name.toList :=
  ⟨fun h => ⟨h.nonempty, h.noSlash⟩, fun h => ⟨h.1, h.2⟩⟩

instance (name : String) : Decidable (PathName name) := decidable_of_iff' _ (pathName_iff name)

theorem join_singleton (name : String) : join "/" [name] = name := by simp [join, glue]

theorem join_concat {names : List String} (h : names ≠ []) (name : String) :
    join "/" (names ++ [name]) = join "/" names ++ "/" ++ name := by
  rw [← String.toList_inj]
  simp only [join, List.map_append, List.map_singleton, String.toList_append, String.toList_ofList]
  exact glue_concat _ (by simpa using h) _

theorem join_append {names more : List String} (h : names ≠ []) (hm : more ≠ []) :
    join "/" (names ++ more) = join "/" names ++ "/" ++ join "/" more := by
  induction more using List.reverseRecOn with
  | nil => exact absurd rfl hm
  | append_singleton more name ih =>
    by_cases hnil : more = []
    · rw [hnil, List.nil_append, join_concat h, join_singleton]
    · rw [← List.append_assoc, join_concat (by simp [h]), ih hnil, join_concat hnil]
      simp only [String.append_assoc]

section

variable {names : List String}

/-- a path ends as its last name does, with no slash -/
theorem last_join (h : names ≠ []) (hn : ∀ name ∈ names, PathName name) :
    ∃ front c, (join "/" names).toList = front ++ [c] ∧ c ≠ '/' := by
  induction names using List.reverseRecOn with
  | nil => exact absurd rfl h
  | append_singleton names name _ =>
    have hname : PathName name := hn name (by simp)
    have hne : name.toList ≠ [] := fun he => hname.nonempty (String.toList_inj.1 he)
    obtain ⟨front, c, hc⟩ := List.eq_nil_or_concat name.toList |>.resolve_left hne
    have hslash : c ≠ '/' := by
      rintro rfl
      apply hname.noSlash
      rw [hc]
      simp
    by_cases hnil : names = []
    · rw [hnil, List.nil_append, join_singleton]
      exact ⟨front, c, by simpa using hc, hslash⟩
    · rw [join_concat hnil]
      refine ⟨(join "/" names ++ "/").toList ++ front, c, ?_, hslash⟩
      rw [String.toList_append, hc]
      simp

theorem join_ne_empty (h : names ≠ []) (hn : ∀ name ∈ names, PathName name) : join "/" names ≠ "" := by
  obtain ⟨front, c, hc, -⟩ := last_join h hn
  intro he
  rw [he] at hc
  simp at hc

/-- a path starts as its first name does, with no slash -/
theorem head_join (h : names ≠ []) (hn : ∀ name ∈ names, PathName name) :
    ∃ c rest, (join "/" names).toList = c :: rest ∧ c ≠ '/' := by
  cases names with
  | nil => exact absurd rfl h
  | cons first more =>
    have hfirst := hn first (by simp)
    obtain ⟨c, cs, hc⟩ : ∃ c cs, first.toList = c :: cs :=
      List.exists_cons_of_ne_nil fun he => hfirst.nonempty (String.toList_inj.1 (he.trans rfl))
    have hslash : c ≠ '/' := by
      rintro rfl
      exact hfirst.noSlash (by simp [hc])
    cases more with
    | nil => exact ⟨c, cs, by simp [join, glue, hc], hslash⟩
    | cons second more => exact ⟨c, _, by simp [join, glue, hc]; rfl, hslash⟩

/-- names that are added to a path one by one are added to it joined, when a name that is added behind others is -/
theorem foldl_join {add : String → String → String} {path : String}
    (hadd : ∀ names name, names ≠ [] → (∀ name ∈ names, PathName name) →
      add (add path (join "/" names)) name = add path (join "/" (names ++ [name])))
    (h : names ≠ []) (hn : ∀ name ∈ names, PathName name) : names.foldl add path = add path (join "/" names) := by
  induction names using List.reverseRecOn with
  | nil => exact absurd rfl h
  | append_singleton names name ih =>
    rw [List.foldl_append, List.foldl_cons, List.foldl_nil]
    by_cases hnil : names = []
    · rw [hnil, List.foldl_nil, List.nil_append, join_singleton]
    · have hn' : ∀ name ∈ names, PathName name := fun name hm => hn name (List.mem_append_left _ hm)
      rw [ih hnil hn', hadd names name hnil hn']

/-- the names of a path are got back from it -/
theorem join_injective {names' : List String} (h : names ≠ []) (h' : names' ≠ [])
    (hn : ∀ name ∈ names, PathName name) (hn' : ∀ name ∈ names', PathName name)
    (heq : join "/" names = join "/" names') : names = names' := by
  have hslash : "/" = '/'.toString := rfl
  rw [hslash] at heq
  calc names = splitOn '/' (join '/'.toString names) := (splitOn_join h fun name hm => (hn name hm).noSlash).symm
    _ = splitOn '/' (join '/'.toString names') := by rw [heq]
    _ = names' := splitOn_join h' fun name hm => (hn' name hm).noSlash

/-- a path goes on from another one, behind a slash, when its names go on from that one's -/
theorem startsWith_join_iff {names' : List String} (h : names ≠ []) (h' : names' ≠ [])
    (hn : ∀ name ∈ names, PathName name) (hn' : ∀ name ∈ names', PathName name) :
    startsWith (join "/" names ++ "/") (join "/" names') = true ↔ ∃ more, more ≠ [] ∧ names' = names ++ more := by
  rw [startsWith, Option.isSome_iff_exists]
  constructor
  · rintro ⟨rest, hrest⟩
    have htext : join "/" names ++ "/" ++ String.ofList rest = join "/" names' := by
      rw [← String.toList_inj, String.toList_append, String.toList_ofList]
      exact dropStart?_eq_some.1 hrest
    have hsplit : splitOn '/' (join "/" names') = splitOn '/' (join "/" names) ++ splitOn '/' (String.ofList rest) := by
      rw [← htext]
      simp only [splitOn, String.toList_append, List.append_assoc]
      rw [show "/".toList = ['/'] from rfl, List.singleton_append, pieces_append, List.map_append]
    have hslash : "/" = '/'.toString := rfl
    rw [hslash, splitOn_join h' fun name hm => (hn' name hm).noSlash,
      splitOn_join h fun name hm => (hn name hm).noSlash] at hsplit
    exact ⟨_, by simp [splitOn, pieces_ne_nil], hsplit⟩
  · rintro ⟨more, hm, rfl⟩
    refine ⟨(join "/" more).toList, dropStart?_eq_some.2 ?_⟩
    rw [← String.toList_append, join_append h hm]

end

end ImportHarvest

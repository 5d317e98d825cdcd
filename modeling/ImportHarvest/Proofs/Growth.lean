import ImportHarvest.Proofs.Written
/-!
The walk of a directory before and after a file is made in it, or gets another content.

Where the walk did not fail before, it does not fail afterwards, and it gives the same records in the same order; besides
them there may be others, and each of those has a path that leads to the file (`walk_of_changed`). It may be there under
its own name, or through links that led nowhere before.
-/

namespace ImportHarvest

open Text

/-! ## Walks with more records -/

/-- the same records, with others between them -/
inductive Interspersed (extra : Record → Prop) : List Record → List Record → Prop where
  | nil : Interspersed extra [] []
  | both {r : Record} {rs rs' : List Record} : Interspersed extra rs rs' → Interspersed extra (r :: rs) (r :: rs')
  | extra {r : Record} {rs rs' : List Record} : extra r → Interspersed extra rs rs' →
      Interspersed extra rs (r :: rs')

/-- where the one walk has no failure the other has none, and the same records, with others between them -/
def Listing.Grows (extra : Record → Prop) (a b : Listing) : Prop :=
  a.failure = none → b.failure = none ∧ Interspersed extra a.records b.records

section

variable {extra : Record → Prop}

theorem Interspersed.refl (rs : List Record) : Interspersed extra rs rs := by
  induction rs with
  | nil => exact .nil
  | cons r rs ih => exact .both ih

theorem Interspersed.append {rs rs' ts ts' : List Record} (h : Interspersed extra rs rs')
    (h' : Interspersed extra ts ts') : Interspersed extra (rs ++ ts) (rs' ++ ts') := by
  induction h with
  | nil => exact h'
  | both _ ih => exact .both ih
  | extra hr _ ih => exact .extra hr ih

namespace Listing.Grows

variable {a a' b b' : Listing}

theorem refl (a : Listing) : Grows extra a a := fun h => ⟨h, .refl _⟩

theorem of_failure {f : Failure} (h : a.failure = some f) : Grows extra a b := fun hn => by
  rw [h] at hn
  cases hn

theorem of_extra {r : Record} (h : extra r) : Grows extra .nil (.single r) := fun _ => ⟨rfl, .extra h .nil⟩

theorem append_eq_of_none (h : a.failure = none) (b : Listing) : a ++ b = ⟨a.records ++ b.records, b.failure⟩ := by
  change Listing.append a b = _
  rw [Listing.append, h]

theorem append (h : Grows extra a b) (h' : Grows extra a' b') : Grows extra (a ++ a') (b ++ b') := by
  intro hn
  cases ha : a.failure with
  | some f =>
    have : (a ++ a').failure = some f := by
      change (Listing.append a a').failure = _
      rw [Listing.append, ha]
      exact ha
    rw [this] at hn
    cases hn
  | none =>
    obtain ⟨hb, hr⟩ := h ha
    rw [append_eq_of_none ha] at hn ⊢
    rw [append_eq_of_none hb]
    obtain ⟨hb', hr'⟩ := h' hn
    exact ⟨hb', hr.append hr'⟩

end Listing.Grows

end

/-! ## The walk of a directory -/

namespace LocalTree

section

variable {place : Place} {content : Octets} {d d' : Disk} {budget : Nat} {p : Position} {name target : String}

/-- what the walk gives for a link that stands in front, by what it leads to -/
theorem walkChildren_link (d : Disk) (followLinks : Bool) (budget : Nat) (p : Position) (name target : String)
    (rest : List (String × Node)) : walkChildren d followLinks budget p ((name, .link target) :: rest) =
      match p.linked d budget name target with
      | .ok ⟨_, .file _, _⟩ => .single (p.record name false) ++ walkChildren d followLinks budget p rest
      | .ok ⟨place, .directory children, left⟩ =>
        if !followLinks then walkChildren d followLinks budget p rest
        else if p.within.contains place then p.failure name .loopDetected
        else .single (p.record name true) ++ walkChildren d followLinks left (p.enter name place) children
          ++ walkChildren d followLinks budget p rest
      | .ok _ => walkChildren d followLinks budget p rest
      | .error fault => if followLinks then p.failure name fault else walkChildren d followLinks budget p rest := by
  rw [walkChildren]
  split <;> simp_all

theorem linked_of_changed (h : d.Changed place content d') (budget : Nat) (p : Position) (name target : String) :
    Disk.FollowChanged place content (p.linked d budget name target) (p.linked d' budget name target) := by
  unfold Position.linked
  split
  · exact .refused
  · cases budget with
    | zero => exact .refused
    | succ budget => exact Disk.follow_of_changed h budget _ _

/-- the path of a link leads where the walk goes -/
theorem leads_of_linked (hs : p.Stands d budget) (hn : IsName name)
    (hat : d.at? (p.place ++ [name]) = some (.link target)) {f : Disk.Found}
    (hl : p.linked d budget name target = .ok f) : d.Leads (joinPath p.shown name) f.place := by
  obtain ⟨budget, rfl, hf⟩ := Position.linked_eq_ok hl
  have hc := hs.follow_linked hn hat []
  rw [List.append_nil, List.append_nil, hf] at hc
  exact ⟨f.node, f.budget, hc⟩

/-- the path of a file leads to its place -/
theorem leads_of_file (hs : p.Stands d budget) (hn : IsName name)
    (hat : d.at? (p.place ++ [name]) = some (.file content)) :
    d.Leads (joinPath p.shown name) (p.place ++ [name]) := by
  have hc := hs.follow_child hn []
  rw [List.append_nil] at hc
  refine ⟨.file content, budget, ?_⟩
  rw [hc, Disk.follow, Disk.advance_name hn, hat]
  rfl

theorem at?_of_linked {f : Disk.Found} (hl : p.linked d budget name target = .ok f) : d.at? f.place = some f.node := by
  obtain ⟨budget, rfl, hf⟩ := Position.linked_eq_ok hl
  exact Disk.at?_of_follow hf

/-- a link in front leads where it led before, or nowhere before and now to the file -/
theorem walkChildren_link_of_changed {followLinks : Bool} {rest rest' : List (String × Node)}
    (h : d.Changed place content d') (hs : p.Stands d' budget) (hname : IsName name)
    (hlink : d'.at? (p.place ++ [name]) = some (.link target))
    (hrest : (walkChildren d followLinks budget p rest).Grows (fun r => d'.Leads r.path place)
      (walkChildren d' followLinks budget p rest'))
    (hinto : ∀ q children children' left, left < budget →
      p.linked d' budget name target = .ok ⟨q, .directory children', left⟩ →
      Changed place content q children children' →
      (walkChildren d followLinks left (p.enter name q) children).Grows (fun r => d'.Leads r.path place)
        (walkChildren d' followLinks left (p.enter name q) children')) :
    (walkChildren d followLinks budget p ((name, .link target) :: rest)).Grows (fun r => d'.Leads r.path place)
      (walkChildren d' followLinks budget p ((name, .link target) :: rest')) := by
  have hlinked := linked_of_changed h budget p name target
  rw [walkChildren_link, walkChildren_link]
  generalize p.linked d budget name target = found at hlinked ⊢
  cases hl' : p.linked d' budget name target with
  | error e' =>
    rw [hl'] at hlinked
    cases hlinked with
    | refused =>
      dsimp only
      split
      · exact .of_failure rfl
      · exact hrest
  | ok f' =>
    rw [hl'] at hlinked
    cases hlinked with
    | created =>
      -- it led nowhere before, so it leads to the file that is there now
      have hextra : d'.Leads (p.record name false).path place := leads_of_linked hs hname hlink hl'
      dsimp only
      split
      · exact .of_failure rfl
      · exact (Listing.Grows.of_extra hextra).append hrest
    | @found q n n' left hn =>
      cases n with
      | file old => cases hn <;> exact (Listing.Grows.refl _).append hrest
      | directory children =>
        obtain ⟨children', rfl, hchildren⟩ := hn.of_directory
        dsimp only
        split
        · exact hrest
        · split
          · exact .refl _
          · exact ((Listing.Grows.refl _).append (hinto q _ _ left (Position.linked_budget_lt hl') hl' hchildren)).append
              hrest
      | link | special =>
        cases hn
        exact hrest

/-- **A walk is as it was before the file**, but for the file itself: where the walk of a directory does not fail before
the file is made or changed, it does not fail afterwards, and what it gives besides leads to the file -/
theorem walkChildren_of_changed (followLinks : Bool) {budget : Nat} {p : Position} {cs cs' : List (String × Node)}
    (h : d.Changed place content d') (hd : d'.Proper) (hc : Changed place content p.place cs cs')
    (hs : p.Stands d' budget) (hat : d'.Holds p.place cs') :
    (walkChildren d followLinks budget p cs).Grows (fun r => d'.Leads r.path place)
      (walkChildren d' followLinks budget p cs') := by
  match cs with
  | [] =>
    rcases hc.of_nil with rfl | ⟨name, hp, rfl⟩
    · rw [walkChildren, walkChildren]
      exact .refl _
    · have hextra : d'.Leads (p.record name false).path place := by
        rw [← hp]
        exact leads_of_file hs hat.head.1 hat.head.2
      rw [walkChildren, walkChildren, walkChildren]
      exact .of_extra hextra
  | (name, .file old) :: rest =>
    obtain ⟨n', rest', rfl, hn, hrest⟩ := hc.of_cons
    have hmore := walkChildren_of_changed followLinks h hd hrest hs hat.tail
    cases hn <;> rw [walkChildren, walkChildren] <;> exact (Listing.Grows.refl _).append hmore
  | (name, .special kind) :: rest =>
    obtain ⟨n', rest', rfl, hn, hrest⟩ := hc.of_cons
    cases hn
    rw [walkChildren, walkChildren]
    exact walkChildren_of_changed followLinks h hd hrest hs hat.tail
  | (name, .directory children) :: rest =>
    obtain ⟨n', rest', rfl, hn, hrest⟩ := hc.of_cons
    obtain ⟨children', rfl, hchildren⟩ := hn.of_directory
    obtain ⟨hname, hdir⟩ := hat.head
    rw [walkChildren, walkChildren]
    refine ((Listing.Grows.refl _).append ?_).append (walkChildren_of_changed followLinks h hd hrest hs hat.tail)
    split
    · exact .refl _
    · exact walkChildren_of_changed followLinks h hd hchildren (hs.enter hname hdir) (hd.holds hdir)
  | (name, .link target) :: rest =>
    obtain ⟨n', rest', rfl, hn, hrest⟩ := hc.of_cons
    cases hn
    obtain ⟨hname, hlink⟩ := hat.head
    refine walkChildren_link_of_changed h hs hname hlink (walkChildren_of_changed followLinks h hd hrest hs hat.tail) ?_
    intro q children children' left hleft hl hchildren
    exact walkChildren_of_changed followLinks h hd hchildren (hs.enter_linked hname hlink hl) (hd.holds (at?_of_linked hl))
termination_by (budget, sizeOf cs)

/-- the walk of a directory that does not fail before a file is made or changed gives the same afterwards, but for what
leads to the file -/
theorem walk_of_changed (t : LocalTree) (h : d.Changed place content d') (hd : d'.Proper) :
    (t.walk d).Grows (fun r => d'.Leads r.path place) (t.walk d') := by
  have hroot := Disk.resolve_of_changed h t.root
  rw [walk, walk]
  generalize d.resolve true t.root = found at hroot ⊢
  cases hr' : d'.resolve true t.root with
  | error e' =>
    rw [hr'] at hroot
    cases hroot
    exact .of_failure rfl
  | ok f' =>
    rw [hr'] at hroot
    cases hroot with
    | created => exact .of_failure rfl
    | @found q n n' left hn =>
      cases n with
      | directory children =>
        obtain ⟨children', rfl, hchildren⟩ := hn.of_directory
        have hdir : d'.at? q = some (.directory children') := Disk.at?_of_follow (Disk.follow_of_resolve hr').2
        exact walkChildren_of_changed t.followLinks h hd hchildren (Position.stands_root hr' [] [q]) (hd.holds hdir)
      | _ => cases hn <;> exact .refl _

end

end LocalTree

end ImportHarvest

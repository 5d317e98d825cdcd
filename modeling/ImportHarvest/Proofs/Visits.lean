import ImportHarvest.LocalTree.Visits
import ImportHarvest.Proofs.Growth
import ImportHarvest.Proofs.Members
import ImportHarvest.Proofs.Utf8
/-!
A walk on disk takes its records from visits.

What a traversal shows, one visit after the other, is a listing: the records of its entries up to the first visit that
fails, and then that failure (`listingOf`). The calls of a walk give this listing item by item and nothing ever after
(`nth_eq_listing`), for any visits at all. A walk of a directory is the listing of the visits below it
(`walk_eq_listing`): where the names are in order, the path of an entry tells how it was come to (`toRecord_child`), and it
leads to a file when the entry is one, or is a link that leads to one (`isFile_link`).
-/

namespace ImportHarvest

open Text

/-! ## Listings one after the other -/

namespace Listing

@[simp]
theorem nil_append (a : Listing) : nil ++ a = a := rfl

theorem append_assoc (a b c : Listing) : a ++ b ++ c = a ++ (b ++ c) := by
  obtain ⟨ra, _ | fa⟩ := a
  · obtain ⟨rb, _ | fb⟩ := b
    · change (⟨ra ++ rb ++ c.records, c.failure⟩ : Listing) = ⟨ra ++ (rb ++ c.records), c.failure⟩
      rw [List.append_assoc]
    · rfl
  · rfl

end Listing

namespace LocalTree

/-! ## The listing of visits -/

/-- the records of visits up to the first one that fails, and its failure -/
def listingOf (isFile : Octets → Bool) (root : Octets) : List Visit → Listing
  | [] => .nil
  | .error e :: _ => .fail e.failure
  | .ok e :: rest =>
    match toRecord isFile root e with
    | some r => .single r ++ listingOf isFile root rest
    | none => listingOf isFile root rest

section

variable {isFile : Octets → Bool} {root : Octets}

theorem listingOf_record {e : DirEntry} {r : Record} (h : toRecord isFile root e = some r) (rest : List Visit) :
    listingOf isFile root (.ok e :: rest) = .single r ++ listingOf isFile root rest := by
  rw [listingOf, h]

theorem listingOf_passed {e : DirEntry} (h : toRecord isFile root e = none) (rest : List Visit) :
    listingOf isFile root (.ok e :: rest) = listingOf isFile root rest := by
  rw [listingOf, h]

theorem listingOf_singleton (e : DirEntry) :
    listingOf isFile root [.ok e] = ⟨(toRecord isFile root e).toList, none⟩ := by
  cases h : toRecord isFile root e with
  | none => rw [listingOf_passed h]; rfl
  | some r => rw [listingOf_record h]; rfl

theorem listingOf_append (a b : List Visit) : listingOf isFile root (a ++ b) = listingOf isFile root a ++ listingOf isFile root b := by
  induction a with
  | nil => rfl
  | cons v a ih =>
    rw [List.cons_append]
    cases v with
    | error e => rfl
    | ok e =>
      cases h : toRecord isFile root e with
      | none => rw [listingOf_passed h, listingOf_passed h, ih]
      | some r => rw [listingOf_record h, listingOf_record h, ih, Listing.append_assoc]

/-! ## Calls -/

/-- after a failure calls give nothing, whatever visits are left -/
theorem nth_of_failed (n : Nat) (visits : List Visit) : nth isFile root n true visits = none := by
  induction n generalizing visits with
  | zero => cases visits <;> rfl
  | succ n ih => cases visits <;> exact ih _

theorem nth_nil (n : Nat) : nth isFile root n false [] = none := by
  induction n with
  | zero => rfl
  | succ n ih => exact ih

/-- an entry without a record is passed over by the call that comes to it -/
theorem nth_passed {e : DirEntry} (h : toRecord isFile root e = none) (n : Nat) (rest : List Visit) :
    nth isFile root n false (.ok e :: rest) = nth isFile root n false rest := by
  have hnext : next isFile root false (.ok e :: rest) = next isFile root false rest := by rw [next, h]
  cases n with
  | zero => rw [nth, nth, hnext]
  | succ n => rw [nth, nth, hnext]

/-- the calls on visits give their listing item by item, and nothing ever after -/
theorem nth_eq_listing (n : Nat) (visits : List Visit) :
    nth isFile root n false visits = (listingOf isFile root visits).items[n]? := by
  induction visits generalizing n with
  | nil => exact nth_nil n
  | cons v rest ih =>
    cases v with
    | error e =>
      cases n with
      | zero => rfl
      | succ n => exact nth_of_failed n rest
    | ok e =>
      cases h : toRecord isFile root e with
      | none => rw [nth_passed h, listingOf_passed h, ih]
      | some r =>
        have hnext : next isFile root false (.ok e :: rest) = (some (.ok r), false, rest) := by rw [next, h]
        rw [listingOf_record h]
        cases n with
        | zero => rw [nth, hnext]; rfl
        | succ n => rw [nth, hnext]; exact ih n

/-- behind an item of a listing that is no record there is nothing -/
theorem items_end (l : Listing) {n m : Nat} (hn : ∀ r, l.items[n]? ≠ some (.ok r)) (hm : n < m) : l.items[m]? = none := by
  rw [Listing.items] at hn ⊢
  have hlen : l.failure.toList.length ≤ 1 := by cases l.failure <;> simp
  have hrecords : l.records.length ≤ n := by
    by_contra hlt
    have hlt : n < l.records.length := Nat.lt_of_not_le hlt
    apply hn l.records[n]
    rw [List.getElem?_append_left (by simpa using hlt)]
    simp [hlt]
  apply List.getElem?_eq_none
  simp only [List.length_append, List.length_map]
  omega

end

/-! ## Paths and names -/

section

variable {d : Disk} {root : String}

theorem joinPath_ne_empty (path : String) {name : String} (hn : IsName name) : joinPath path name ≠ "" := by
  unfold joinPath
  intro h
  split at h <;> exact hn.nonempty (String.append_eq_empty_iff.1 h).2

theorem mem_joinPath {c : Char} {path name : String} (hc : c ∈ (joinPath path name).toList) :
    c ∈ path.toList ∨ c = '/' ∨ c ∈ name.toList := by
  unfold joinPath at hc
  split at hc
  · rw [String.toList_append, List.mem_append] at hc
    exact hc.imp_right .inr
  · rw [String.toList_append, String.toList_append, List.mem_append, List.mem_append] at hc
    simpa [or_assoc] using hc

/-- a path is taken apart where its text is -/
theorem pieces_slash (path : String) : pieces slash (utf8Of path) = (Disk.steps path).map utf8Of := by
  rw [utf8Of, show slash = UInt8.ofNat '/'.toNat from rfl, pieces_utf8 (by decide), Disk.steps, splitOn, List.map_map]
  refine List.map_congr_left fun piece _ => ?_
  rw [Function.comp_apply, utf8Of, String.toList_ofList]

/-- a path starts with the octet of a slash when it starts with a slash -/
theorem head?_utf8Of (path : String) : (utf8Of path).head? = some slash ↔ startsWith "/" path = true := by
  have hstarts : startsWith "/" path = true ↔ path.toList.head? = some '/' := by
    unfold startsWith
    cases path.toList with
    | nil => simp [dropStart?]
    | cons c cs =>
      by_cases hc : '/' = c
      · subst hc
        simp [dropStart?]
      · simp [dropStart?, hc, Ne.symm hc]
  rw [hstarts, utf8Of]
  cases path.toList with
  | nil => simp [utf8]
  | cons c cs =>
    obtain ⟨b, bs, hb, -⟩ := partAt_utf8EncodeChar c []
    have hhead : (utf8 (c :: cs)).head? = some b := by
      change (String.utf8EncodeChar c ++ utf8 cs).head? = some b
      rw [hb]
      rfl
    rw [hhead, List.head?_cons, Option.some_inj, Option.some_inj]
    constructor
    · rintro rfl
      by_contra hc
      have hne : '/'.toNat ≠ c.toNat := fun he => hc (Char.toNat_inj.1 he).symm
      exact not_mem_utf8EncodeChar (by decide) hne (hb ▸ List.mem_cons_self)
    · rintro rfl
      rw [utf8EncodeChar_ascii (by decide)] at hb
      exact (List.cons.inj hb).1.symm

/-- the names of a path that is a text -/
theorem components_utf8Of (path : String) : components (utf8Of path) =
    (if startsWith "/" path then "/" :: (Disk.steps path).filter fun s => s ≠ "" && s ≠ "."
      else if (Disk.steps path).head? = some "." then "." :: (Disk.steps path).filter fun s => s ≠ "" && s ≠ "."
      else (Disk.steps path).filter fun s => s ≠ "" && s ≠ ".").map utf8Of := by
  have hempty (s : String) : utf8Of s = [] ↔ s = "" := utf8Of_inj (t := "")
  have hhere (s : String) : utf8Of s = [dot] ↔ s = "." := utf8Of_inj (t := ".")
  have hfilter : (pieces slash (utf8Of path)).filter (fun s => s ≠ [] && s ≠ [dot]) =
      ((Disk.steps path).filter fun s => s ≠ "" && s ≠ ".").map utf8Of := by
    rw [pieces_slash, List.filter_map]
    refine congrArg (List.map utf8Of) (List.filter_congr fun s _ => ?_)
    simp only [Function.comp_apply, ne_eq, hempty, hhere]
  have hdot : (pieces slash (utf8Of path)).head? = some [dot] ↔ (Disk.steps path).head? = some "." := by
    rw [pieces_slash, List.head?_map]
    cases (Disk.steps path).head? with
    | none => simp
    | some first => simp [hhere]
  unfold components
  simp only [hfilter, hdot, head?_utf8Of]
  split
  · rfl
  · split <;> rfl

/-- the names of a path with a name added to it -/
theorem components_joinPath (path : String) {name : String} (hn : IsName name) :
    components (utf8Of (joinPath path name)) = components (utf8Of path) ++ [utf8Of name] := by
  have hname : [name].filter (fun s => s ≠ "" && s ≠ ".") = [name] := by simp [hn.nonempty, hn.notHere]
  have hfilter : (Disk.steps (joinPath path name)).filter (fun s => s ≠ "" && s ≠ ".") =
      (Disk.steps path).filter (fun s => s ≠ "" && s ≠ ".") ++ [name] := by
    rcases Disk.steps_joinPath path hn.noSlash with h | ⟨front, hpath, hjoined⟩
    · rw [h, List.filter_append, hname]
    · have hempty : [""].filter (fun s => s ≠ "" && s ≠ ".") = [] := rfl
      rw [hpath, hjoined, List.filter_append, List.filter_append, hname, hempty, List.append_nil]
  have hdot : ((Disk.steps (joinPath path name)).head? = some ".") ↔ ((Disk.steps path).head? = some ".") := by
    rcases Disk.steps_joinPath path hn.noSlash with h | ⟨_ | ⟨first, front⟩, hpath, hjoined⟩
    · obtain ⟨first, rest, hsteps⟩ := List.exists_cons_of_ne_nil (show Disk.steps path ≠ [] by
        simp [Disk.steps, splitOn, pieces_ne_nil])
      rw [h, hsteps]
      rfl
    · rw [hpath, hjoined]
      simp [hn.notHere]
    · rw [hpath, hjoined]
      rfl
  rw [components_utf8Of, components_utf8Of, hfilter, Disk.startsWith_joinPath path hn.noSlash]
  simp only [hdot]
  split
  · simp
  · split <;> simp

theorem components_foldl (root : String) {names : List String} (hn : ∀ name ∈ names, IsName name) :
    components (utf8Of (names.foldl joinPath root)) = components (utf8Of root) ++ names.map utf8Of := by
  induction names using List.reverseRecOn with
  | nil => exact (List.append_nil _).symm
  | append_singleton names name ih =>
    obtain ⟨hnames, hname⟩ := List.forall_mem_append.1 hn
    rw [List.foldl_append, List.foldl_cons, List.foldl_nil, components_joinPath _ (List.forall_mem_singleton.1 hname),
      ih hnames, List.append_assoc, List.map_append]
    rfl

/-- below the root, the names that lead to a path are its path seen from the root -/
theorem relativePath_of_components {root path : Octets} {names : List String}
    (h : components path = components root ++ names.map utf8Of) : relativePath root path = join "/" names := by
  have hdrop : dropStart? (components root) (components path) = some (names.map utf8Of) := dropStart?_eq_some.2 h.symm
  have hshown : (names.map utf8Of).map shownOf = names := by
    rw [List.map_map, show shownOf ∘ utf8Of = id from funext shownOf_utf8Of, List.map_id]
  rw [relativePath, hdrop, Option.getD_some, hshown]

theorem fileName_joinPath (path : String) {name : String} (hn : IsName name) :
    fileName (utf8Of (joinPath path name)) = utf8Of name := by
  have hother : [[slash], [dot], [dot, dot]].contains (utf8Of name) = false := by
    have hspecial : [[slash], [dot], [dot, dot]] = ["/", ".", ".."].map utf8Of := by decide
    have hslash : name ≠ "/" := by
      rintro rfl
      exact hn.noSlash (by decide)
    rw [hspecial, List.contains_eq_mem, decide_eq_false_iff_not, List.mem_map]
    rintro ⟨s, hs, he⟩
    obtain rfl := utf8Of_inj.1 he
    simp [hslash, hn.notHere, hn.notAbove] at hs
  rw [fileName, components_joinPath path hn, List.getLast?_concat]
  dsimp only
  rw [hother, if_neg Bool.false_ne_true]

variable {budget : Nat} {p : Position} {name target : String}

/-- a position that names in order lead to from the root; its path holds no NUL -/
structure Position.Below (root : String) (p : Position) : Prop where
  shown : p.shown = p.names.foldl joinPath root
  names : ∀ name ∈ p.names, IsName name
  noNul : '\x00' ∉ p.shown.toList

theorem Position.Below.child_noNul (h : p.Below root) (hnul : '\x00' ∉ name.toList) :
    '\x00' ∉ (joinPath p.shown name).toList := by
  intro hmem
  rcases mem_joinPath hmem with hmem | hmem | hmem
  · exact h.noNul hmem
  · cases hmem
  · exact hnul hmem

theorem Position.Below.enter (h : p.Below root) (hn : IsName name) (hnul : '\x00' ∉ name.toList) (place : Place) :
    (p.enter name place).Below root where
  shown := shown_enter h.shown name place
  names := List.forall_mem_append.2 ⟨h.names, List.forall_mem_singleton.2 hn⟩
  noNul := h.child_noNul hnul

theorem isFileAt_utf8Of (d : Disk) (path : String) : d.isFileAt (utf8Of path) = d.isFile path := by
  rw [Disk.isFileAt, utf8Exact?_utf8Of, Option.any_some, String.ofList_toList]

theorem ofOctets_utf8Of (path : String) : ContentRef.ofOctets (utf8Of path) = .path path := by
  unfold ContentRef.ofOctets
  rw [utf8Exact?_utf8Of]
  dsimp only
  rw [String.ofList_toList]

/-- a visit that fails at a path that is a text fails with that path -/
theorem listingOf_failed (isFile : Octets → Bool) (root : Octets) (path : String) (fault : Option Fault)
    (rest : List Visit) : listingOf isFile root (.error ⟨some (utf8Of path), fault⟩ :: rest) =
      .fail (.io path (fault.getD .loopDetected)) := by
  rw [listingOf, VisitError.failure, Option.getD_some, shownOf_utf8Of]

theorem listingOf_child (isFile : Octets → Bool) (root : Octets) (p : Position) (name : String) (fault : Option Fault)
    (rest : List Visit) : listingOf isFile root (.error (p.error name fault) :: rest) =
      p.failure name (fault.getD .loopDetected) := listingOf_failed _ _ _ _ _

/-- the record of an entry of a directory is that of the child of its name -/
theorem toRecord_child (h : p.Below root) (hn : IsName name) (type : EntryType) :
    toRecord d.isFileAt (utf8Of root) (p.entry name type) =
      if type = .directory then some (p.record name true)
      else if type = .file || d.isFile (joinPath p.shown name) then some (p.record name false)
      else none := by
  have hrelative : relativePath (utf8Of root) (utf8Of (joinPath p.shown name)) = join "/" (p.names ++ [name]) := by
    apply relativePath_of_components
    rw [components_joinPath p.shown hn, h.shown, components_foldl root h.names, List.append_assoc, List.map_append]
    rfl
  simp only [toRecord, Position.entry, hrelative, fileName_joinPath p.shown hn, shownOf_utf8Of, isFileAt_utf8Of,
    ofOctets_utf8Of]
  rfl

theorem toRecord_file (h : p.Below root) (hn : IsName name) :
    toRecord d.isFileAt (utf8Of root) (p.entry name .file) = some (p.record name false) := by
  rw [toRecord_child h hn]
  rfl

theorem toRecord_directory (h : p.Below root) (hn : IsName name) :
    toRecord d.isFileAt (utf8Of root) (p.entry name .directory) = some (p.record name true) := by
  rw [toRecord_child h hn]
  rfl

/-! ## Paths that lead to a file -/

theorem checkPath_joinPath (hn : IsName name) (hnul : '\x00' ∉ (joinPath p.shown name).toList)
    (hlong : p.tooLong name = false) : Disk.checkPath (joinPath p.shown name) = .ok () := by
  have hempty : (joinPath p.shown name).isEmpty = false := by simpa using joinPath_ne_empty p.shown hn
  have hshort : ¬ Disk.maxPath ≤ (utf8Of (joinPath p.shown name)).length := of_decide_eq_false hlong
  rw [Disk.checkPath, if_neg (by simpa using hnul), hempty, if_neg Bool.false_ne_true, if_neg hshort]

theorem isFile_eq_true {path : String} (h : d.isFile path = true) :
    ∃ place content left, d.resolve true path = .ok ⟨place, .file content, left⟩ := by
  unfold Disk.isFile at h
  split at h
  · exact ⟨_, _, _, ‹_›⟩
  · cases h

/-- a path that leads to a file leads there by the name of the child -/
theorem follow_of_isFile (hs : p.Stands d budget) (hn : IsName name) (h : d.isFile (joinPath p.shown name) = true) :
    Disk.checkPath (joinPath p.shown name) = .ok () ∧
      ∃ place content left, d.follow true budget p.place [name] = .ok ⟨place, .file content, left⟩ := by
  obtain ⟨place, content, left, hr⟩ := isFile_eq_true h
  obtain ⟨hc, hf⟩ := Disk.follow_of_resolve hr
  have hchild := hs.follow_child hn []
  rw [List.append_nil, hf] at hchild
  exact ⟨hc, place, content, left, hchild.symm⟩

/-- the path of a special file leads to no file -/
theorem isFile_special (hs : p.Stands d budget) (hn : IsName name) {kind : Special}
    (hat : d.at? (p.place ++ [name]) = some (.special kind)) : d.isFile (joinPath p.shown name) = false := by
  rw [Bool.eq_false_iff]
  intro h
  obtain ⟨-, place, content, left, hf⟩ := follow_of_isFile hs hn h
  rw [Disk.follow, Disk.advance_name hn, hat] at hf
  cases hf

theorem follow_link (budget : Nat) (hn : IsName name) (hat : d.at? (p.place ++ [name]) = some (.link target)) :
    d.follow true (budget + 1) p.place [name] = d.follow true budget (Disk.base p.place target) (Disk.steps target) := by
  rw [Disk.follow, Disk.advance_name hn, hat]
  dsimp only
  rw [List.append_nil]

/-- the path of a link leads to a file when the link does -/
theorem isFile_link (hs : p.Stands d budget) (hn : IsName name) (hat : d.at? (p.place ++ [name]) = some (.link target))
    (hnul : '\x00' ∉ (joinPath p.shown name).toList) :
    d.isFile (joinPath p.shown name) = true ↔
      ∃ place content left, p.linked d budget name target = .ok ⟨place, .file content, left⟩ := by
  constructor
  · intro h
    obtain ⟨hc, place, content, left, hf⟩ := follow_of_isFile hs hn h
    refine ⟨place, content, left, ?_⟩
    unfold Position.linked
    rw [tooLong_of_checkPath hc, if_neg Bool.false_ne_true]
    cases budget with
    | zero =>
      rw [Disk.follow, Disk.advance_name hn, hat] at hf
      cases hf
    | succ budget => rwa [follow_link budget hn hat] at hf
  · rintro ⟨place, content, left, hl⟩
    have hlong : p.tooLong name = false := by
      rw [Bool.eq_false_iff]
      intro hlong
      unfold Position.linked at hl
      rw [if_pos hlong] at hl
      cases hl
    obtain ⟨budget, rfl, hf⟩ := Position.linked_eq_ok hl
    have hchild := hs.follow_linked hn hat []
    rw [List.append_nil, List.append_nil, hf] at hchild
    have hr : d.resolve true (joinPath p.shown name) = .ok ⟨place, .file content, left⟩ := by
      rw [Disk.resolve, checkPath_joinPath hn hnul hlong]
      exact hchild
    rw [Disk.isFile, hr]

/-- the entry of a link, shown as neither a file nor a directory, has a record when the link leads to a file -/
theorem toRecord_link (hs : p.Stands d budget) (hb : p.Below root) (hn : IsName name)
    (hat : d.at? (p.place ++ [name]) = some (.link target)) (hnul : '\x00' ∉ name.toList) {type : EntryType}
    (hdir : type ≠ .directory) (hfile : type ≠ .file) :
    toRecord d.isFileAt (utf8Of root) (p.entry name type) =
      match p.linked d budget name target with
      | .ok ⟨_, .file _, _⟩ => some (p.record name false)
      | _ => none := by
  have hleads := isFile_link hs hn hat (hb.child_noNul hnul)
  rw [toRecord_child hb hn, if_neg hdir, decide_eq_false hfile, Bool.false_or]
  by_cases h : d.isFile (joinPath p.shown name) = true
  · obtain ⟨place, content, left, hl⟩ := hleads.1 h
    rw [if_pos h, hl]
  · rw [if_neg h]
    split
    · exact absurd (hleads.2 ⟨_, _, _, ‹_›⟩) h
    · rfl

/-! ## A walk and its visits -/

theorem below_root (hc : Disk.checkPath root = .ok ()) (place : Place) : Position.Below root ⟨root, [], place, [place]⟩ where
  shown := rfl
  names := nofun
  noNul := by
    intro hmem
    rw [Disk.checkPath, if_pos (by simpa using hmem)] at hc
    cases hc

/-- no name on the disk holds a NUL -/
def NulFree (d : Disk) : Prop := ∀ place n, d.at? place = some n → ∀ name ∈ place, '\x00' ∉ name.toList

theorem NulFree.child (h : NulFree d) {n : Node} (hat : d.at? (p.place ++ [name]) = some n) : '\x00' ∉ name.toList :=
  h _ _ hat name (by simp)

/-- the visits of a link, by what it leads to -/
theorem visitChildren_link (d : Disk) (followLinks : Bool) (budget : Nat) (p : Position) (name target : String)
    (rest : List (String × Node)) : visitChildren d followLinks budget p ((name, .link target) :: rest) =
      (if !followLinks then [.ok (p.entry name .link)]
        else match p.linked d budget name target with
          | .ok ⟨_, .file _, _⟩ => [.ok (p.entry name .file)]
          | .ok ⟨place, .directory children, left⟩ =>
            if p.within.contains place then [.error (p.error name none)]
            else .ok (p.entry name .directory) ::
              visitChildren d followLinks left (p.enter name place) children
          | .ok _ => [.ok (p.entry name .special)]
          | .error fault => [.error (p.error name (some fault))])
        ++ visitChildren d followLinks budget p rest := by
  rw [visitChildren]
  split
  · rfl
  · split <;> simp_all

/-- with a link in front, when it holds of the others and of what the link leads to -/
theorem walkChildren_link_eq_listing (followLinks : Bool) {rest : List (String × Node)} (hs : p.Stands d budget)
    (hb : p.Below root) (hn : IsName name) (hat : d.at? (p.place ++ [name]) = some (.link target))
    (hnul : '\x00' ∉ name.toList)
    (hrest : walkChildren d followLinks budget p rest = listingOf d.isFileAt (utf8Of root) (visitChildren d followLinks budget p rest))
    (hinto : ∀ place children left, p.linked d budget name target = .ok ⟨place, .directory children, left⟩ →
      walkChildren d followLinks left (p.enter name place) children =
        listingOf d.isFileAt (utf8Of root) (visitChildren d followLinks left (p.enter name place) children)) :
    walkChildren d followLinks budget p ((name, .link target) :: rest) =
      listingOf d.isFileAt (utf8Of root) (visitChildren d followLinks budget p ((name, .link target) :: rest)) := by
  have hrecord {type : EntryType} (hdir : type ≠ .directory) (hfile : type ≠ .file) :=
    toRecord_link hs hb hn hat hnul hdir hfile
  rw [walkChildren_link, visitChildren_link, listingOf_append, hrest]
  cases followLinks with
  | false =>
    -- the link has a record when its path leads to a file
    simp only [Bool.not_false, if_true, Bool.false_eq_true, if_false]
    rw [listingOf_singleton, hrecord (by decide) (by decide)]
    cases p.linked d budget name target with
    | error fault => rfl
    | ok f =>
      obtain ⟨place, n, left⟩ := f
      cases n <;> rfl
  | true =>
    simp only [Bool.not_true, Bool.false_eq_true, if_false, if_true]
    cases hl : p.linked d budget name target with
    | error fault =>
      dsimp only
      rw [listingOf_child]
      rfl
    | ok f =>
      obtain ⟨place, n, left⟩ := f
      cases n with
      | file content =>
        rw [listingOf_singleton, toRecord_file hb hn]
        rfl
      | directory children =>
        dsimp only
        split
        · rw [listingOf_child]
          rfl
        · rw [listingOf_record (toRecord_directory hb hn), hinto place children left hl]
      | link | special =>
        dsimp only
        rw [listingOf_singleton, hrecord (by decide) (by decide), hl]
        rfl

/-- the walk below a directory is the listing of the visits below it -/
theorem walkChildren_eq_listing (followLinks : Bool) {budget : Nat} {p : Position} {cs : List (String × Node)}
    (hd : d.Proper) (hnul : NulFree d) (hs : p.Stands d budget) (hb : p.Below root) (hat : d.Holds p.place cs) :
    walkChildren d followLinks budget p cs = listingOf d.isFileAt (utf8Of root) (visitChildren d followLinks budget p cs) := by
  match cs with
  | [] => rw [walkChildren, visitChildren, listingOf]
  | (name, .file content) :: rest =>
    obtain ⟨hname, -⟩ := hat.head
    have hrest := walkChildren_eq_listing followLinks hd hnul hs hb hat.tail
    rw [walkChildren, visitChildren, listingOf_record (toRecord_file hb hname), hrest]
  | (name, .special kind) :: rest =>
    obtain ⟨hname, hspecial⟩ := hat.head
    have hrest := walkChildren_eq_listing followLinks hd hnul hs hb hat.tail
    have hrecord : toRecord d.isFileAt (utf8Of root) (p.entry name .special) = none := by
      rw [toRecord_child hb hname, isFile_special hs hname hspecial]
      rfl
    rw [walkChildren, visitChildren, listingOf_passed hrecord, hrest]
  | (name, .directory children) :: rest =>
    obtain ⟨hname, hdir⟩ := hat.head
    have hrest := walkChildren_eq_listing followLinks hd hnul hs hb hat.tail
    have hinto := walkChildren_eq_listing followLinks hd hnul (hs.enter hname hdir)
      (hb.enter hname (hnul.child hdir) (p.place ++ [name])) (hd.holds hdir)
    rw [walkChildren, visitChildren, listingOf_append, listingOf_record (toRecord_directory hb hname), hrest]
    split
    · rw [listingOf_child]
      rfl
    · rw [hinto]
  | (name, .link target) :: rest =>
    obtain ⟨hname, hlink⟩ := hat.head
    have hrest := walkChildren_eq_listing followLinks hd hnul hs hb hat.tail
    refine walkChildren_link_eq_listing followLinks hs hb hname hlink (hnul.child hlink) hrest ?_
    intro place children left hl
    have hlt : left < budget := Position.linked_budget_lt hl
    exact walkChildren_eq_listing followLinks hd hnul (hs.enter_linked hname hlink hl)
      (hb.enter hname (hnul.child hlink) place) (hd.holds (at?_of_linked hl))
termination_by (budget, sizeOf cs)

/-- a walk of a directory is the listing of the visits below it -/
theorem walk_eq_listing (t : LocalTree) (hd : d.Proper) (hnul : NulFree d) :
    t.walk d = listingOf d.isFileAt (utf8Of t.root) (t.visits d) := by
  unfold walk visits
  cases hr : d.resolve true t.root with
  | error fault =>
    dsimp only
    rw [listingOf_failed]
    rfl
  | ok f =>
    obtain ⟨place, n, budget⟩ := f
    cases n with
    | directory children =>
      obtain ⟨hc, hf⟩ := Disk.follow_of_resolve hr
      exact walkChildren_eq_listing t.followLinks hd hnul (Position.stands_root hr [] [place]) (below_root hc place)
        (hd.holds (Disk.at?_of_follow hf))
    | _ => rfl

end

end LocalTree

end ImportHarvest

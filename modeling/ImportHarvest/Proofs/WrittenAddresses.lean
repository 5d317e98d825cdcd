import ImportHarvest.Proofs.Addresses
/-!
Addresses that are written for a place.

An address is put together from its segments with slashes between them, as many as one likes, with a query or a fragment
behind it and blanks around it (`PutTogether`). The path is not lost on the way back: blanks are taken off the ends of
the address, but no segment ends in one, and a query begins with a mark of its own (`trim_of_putTogether`); in front of
the host stands no `g`, so it is the first one (`FirstAt.of_not_mem`). So the place is got back as it was
(`parse_of_address`).
-/

namespace ImportHarvest

namespace Text

/-! ## Blanks around a text -/

section

variable {lead text trail : List Char}

theorem trimEnd_append_blanks (h : ∀ c ∈ trail, isBlank c = true) : trimEnd (text ++ trail) = trimEnd text := by
  have hdrop : (trail.reverse ++ text.reverse).dropWhile isBlank = text.reverse.dropWhile isBlank :=
    List.dropWhile_append_of_pos fun c hc => h c (List.mem_reverse.1 hc)
  rw [trimEnd, trimEnd, List.reverse_append, hdrop]

theorem trim_around (hlead : ∀ c ∈ lead, isBlank c = true) (htrail : ∀ c ∈ trail, isBlank c = true) {c : Char}
    (hc : isBlank c = false) : trim (lead ++ (c :: text ++ trail)) = trimEnd (c :: text) := by
  have hdrop : (lead ++ (c :: text ++ trail)).dropWhile isBlank = c :: text ++ trail := by
    rw [List.dropWhile_append_of_pos hlead, List.cons_append, List.dropWhile_cons_of_neg (by simp [hc])]
  rw [trim, hdrop, trimEnd_append_blanks htrail]

end

end Text

open Text

namespace RepoLocation

/-! ## Addresses from segments -/

/-- a segment as one writes it: it holds no mark of an address, and no blanks stand at its ends -/
structure IsSegment (s : String) : Prop extends IsName s, Tight s

instance (s : String) : Decidable (IsSegment s) :=
  decidable_of_iff (IsName s ∧ Tight s) ⟨fun h => ⟨h.1, h.2⟩, fun h => ⟨h.toIsName, h.toTight⟩⟩

/-- the segments of a place: its owner and its name, and with a ref also `tree`, the ref and the segments of a directory -/
def segmentsOf (owner repo : String) (tree : Option (String × List String)) : List String :=
  owner :: repo :: match tree with
    | none => []
    | some (ref, sub) => "tree" :: ref :: sub

/-- the place itself -/
def placeOf (owner repo : String) (tree : Option (String × List String)) : RepoLocation where
  owner := owner
  repo := repo
  ref := tree.map fun t => t.1
  subdirectory := tree.bind fun t => if t.2 = [] then none else some (join "/" t.2)

/-- an address is put together from segments: they follow the host with slashes around them, one at least between each
two; then may come a query or a fragment, and around all of it any blanks -/
def PutTogether (segments : List String) (url : String) : Prop :=
  ∃ lead path tail trail, (∀ c ∈ lead, isBlank c = true) ∧ (∀ c ∈ trail, isBlank c = true) ∧ HasSegments path segments ∧
    EndsPath tail ∧ url.toList = lead ++ ("https://github.com/".toList ++ path ++ tail ++ trail)

/-- no blank stands at the end of a path when none stands at the end of a segment -/
theorem HasSegments.no_blank_end {path : List Char} {segments : List String} (h : HasSegments path segments)
    (ht : ∀ s ∈ segments, Tight s) : ∀ c ∈ ('/' :: path).getLast?, isBlank c = false := by
  have hslash : ∀ c ∈ ['/'].getLast?, isBlank c = false := by
    rintro _ ⟨⟩
    decide
  induction h with
  | none => exact hslash
  | slash _ ih => exact ih ht
  | @last s hs =>
    obtain ⟨d, text, htext⟩ := List.exists_cons_of_ne_nil hs.toList_ne_nil
    rw [htext, List.getLast?_cons_cons, ← htext]
    exact (ht s (List.mem_singleton_self s)).last
  | @segment s path segments _ _ ih =>
    rw [← List.cons_append, List.getLast?_append_of_ne_nil _ (List.cons_ne_nil _ _)]
    exact ih fun s' hs' => ht s' (List.mem_cons_of_mem s hs')

/-- without the blanks at its ends, an address is the host, the path, and what may follow a path -/
theorem trim_of_putTogether {segments : List String} {url : String} (h : PutTogether segments url)
    (ht : ∀ s ∈ segments, Tight s) : ∃ path tail, HasSegments path segments ∧ EndsPath tail ∧
      trim url.toList = "https://".toList ++ ("github.com/".toList ++ (path ++ tail)) := by
  obtain ⟨lead, path, tail, trail, hlead, htrail, hsegments, htail, hurl⟩ := h
  have hstart : "https://github.com/".toList = 'h' :: "ttps://github.com/".toList := rfl
  have htrim : trim url.toList = trimEnd ("https://github.com/".toList ++ path ++ tail) := by
    rw [hurl, hstart, List.append_assoc _ path, List.cons_append]
    exact trim_around hlead htrail (by decide)
  cases tail with
  | cons c tail =>
    have hc : isBlank c = false := by rcases htail c rfl with rfl | rfl <;> decide
    refine ⟨path, c :: trimEnd tail, hsegments, htail, ?_⟩
    rw [htrim, trimEnd_append_cons hc]
    simp
  | nil =>
    -- the last character is a slash or the end of a segment
    obtain ⟨start, c, hpath⟩ := List.eq_nil_or_concat ('/' :: path) |>.resolve_left (List.cons_ne_nil _ _)
    have hc : isBlank c = false := hsegments.no_blank_end ht c (by rw [hpath]; simp)
    refine ⟨path, [], hsegments, htail, ?_⟩
    have hwhole : "https://github.com/".toList ++ path ++ [] = "https://github.com".toList ++ start ++ c :: [] := by
      calc "https://github.com/".toList ++ path ++ []
          = "https://github.com".toList ++ ('/' :: path) := by simp
        _ = "https://github.com".toList ++ start ++ c :: [] := by rw [hpath]; simp
    have hkept : trimEnd ("https://github.com".toList ++ start ++ c :: []) = "https://github.com".toList ++ start ++ c :: [] :=
      trimEnd_append_cons hc
    rw [htrim, hwhole, hkept, ← hwhole]
    simp

theorem leads_of_putTogether {segments : List String} {url : String} (h : PutTogether segments url)
    (ht : ∀ s ∈ segments, Tight s) : Leads url segments := by
  obtain ⟨path, tail, hsegments, htail, htrim⟩ := trim_of_putTogether h ht
  refine ⟨"https://".toList, path, tail, ?_, hsegments, htail⟩
  rw [htrim]
  exact FirstAt.of_not_mem (by decide)

/-- the segments of a place locate it, with `.git` behind the name or without -/
theorem locates_segmentsOf {owner repo written : String} (tree : Option (String × List String))
    (hgit : ¬ ".git".toList <:+ repo.toList) (hwritten : written = repo ∨ written = repo ++ ".git") :
    Locates (segmentsOf owner written tree) (placeOf owner repo tree) := by
  have hname : Stripped written repo := by
    rcases hwritten with rfl | rfl
    · exact .done hgit
    · exact .dotGit (.done hgit)
  match tree with
  | none => exact .root hname nofun
  | some (ref, []) => exact .ref hname
  | some (ref, s :: sub) => exact .directory hname (List.cons_ne_nil s sub)

theorem tight_dotGit {repo : String} (h : IsSegment repo) : Tight (repo ++ ".git") := by
  obtain ⟨c, text, htext⟩ := List.exists_cons_of_ne_nil h.toList_ne_nil
  constructor
  · have hhead := h.head
    rw [htext] at hhead
    rw [String.toList_append, htext]
    exact hhead
  · rw [String.toList_append, List.getLast?_append_of_ne_nil _ (by decide)]
    rintro _ ⟨⟩
    decide

/-- **An address that is written for a place is read as it.** The place may have a ref, and with one a directory; the
address may have more slashes than it needs, `.git` behind the name, a query, a fragment, and blanks around it. -/
theorem parse_of_address (owner repo written url : String) (tree : Option (String × List String))
    (hsegments : ∀ s ∈ segmentsOf owner repo tree, IsSegment s) (hgit : ¬ ".git".toList <:+ repo.toList)
    (hwritten : written = repo ∨ written = repo ++ ".git") (hurl : PutTogether (segmentsOf owner written tree) url) :
    parse url = .ok (placeOf owner repo tree) := by
  obtain ⟨howner, hrest⟩ := List.forall_mem_cons.1 hsegments
  obtain ⟨hrepo, htree⟩ := List.forall_mem_cons.1 hrest
  have hname : Tight written := by
    rcases hwritten with rfl | rfl
    · exact hrepo.toTight
    · exact tight_dotGit hrepo
  have htight : ∀ s ∈ segmentsOf owner written tree, Tight s :=
    List.forall_mem_cons.2 ⟨howner.toTight, List.forall_mem_cons.2 ⟨hname, fun s hs => (htree s hs).toTight⟩⟩
  exact parse_eq_ok_iff.2 ⟨_, leads_of_putTogether hurl htight, locates_segmentsOf tree hgit hwritten⟩

/-- an address with more slashes than it needs, with the host again in the directory and in the query, and with blanks
around it -/
def vendorAddress : String :=
  " https://github.com//acme/repo.git///tree/main/vendor/github.com//tree/x.git/?tab=github.com/a/b#top\n"

def vendorTree : Option (String × List String) := some ("main", ["vendor", "github.com", "tree", "x.git"])

theorem vendorAddress_putTogether : PutTogether (segmentsOf "acme" "repo.git" vendorTree) vendorAddress := by
  refine ⟨[' '], "/acme/repo.git///tree/main/vendor/github.com//tree/x.git/".toList, '?' :: "tab=github.com/a/b#top".toList,
    ['\n'], List.forall_mem_singleton.2 rfl, List.forall_mem_singleton.2 rfl, ?_, ?_, by decide⟩
  · exact hasSegments_pieces (by simp)
  · rintro _ ⟨⟩
    exact .inl rfl

theorem vendorAddress_place :
    (∀ s ∈ segmentsOf "acme" "repo" vendorTree, IsSegment s) ∧ ¬ ".git".toList <:+ "repo".toList ∧
      PutTogether (segmentsOf "acme" "repo.git" vendorTree) vendorAddress ∧
      parse vendorAddress = .ok ⟨"acme", "repo", some "main", some "vendor/github.com/tree/x.git"⟩ := by
  have hsegments : ∀ s ∈ segmentsOf "acme" "repo" vendorTree, IsSegment s := by decide
  have hgit : ¬ ".git".toList <:+ "repo".toList := by decide
  exact ⟨hsegments, hgit, vendorAddress_putTogether,
    parse_of_address "acme" "repo" "repo.git" vendorAddress vendorTree hsegments hgit (.inr rfl) vendorAddress_putTogether⟩

end RepoLocation

end ImportHarvest

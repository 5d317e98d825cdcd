import ImportHarvest.Proofs.RepositoryNames
/-!
The address of a listing identifies the place.

Behind the base, the address of a listing is a path and a query. The first question mark ends the path, since no part of
a place that an address names holds one; the first two slashes behind `repos` end the owner and the name, since neither
holds one; and what follows `contents` is the directory as it stands (`contentsUrl_toList`). So the four parts are got
back one after the other, whatever texts they are (`WellFormed.eq_of_contentsUrl`). Of a place that no address names they
are not: a directory may hold what looks like a query.
-/

namespace ImportHarvest

namespace Text

/-- what follows a text starts with a mark, if it is not empty -/
def StartsAt (mark : Char) (rest : List Char) : Prop := ∀ c ∈ rest.head?, c = mark

theorem takeWhile_before_mark {mark : Char} {text rest : List Char} (h : mark ∉ text) (hr : StartsAt mark rest) :
    (text ++ rest).takeWhile (· ≠ mark) = text := by
  have htext : ∀ c ∈ text, decide (c ≠ mark) = true := by
    intro c hc
    simp only [decide_eq_true_eq]
    rintro rfl
    exact h hc
  have hrest : rest.takeWhile (· ≠ mark) = [] := by
    cases rest with
    | nil => rfl
    | cons c rest => simp [hr c rfl]
  rw [List.takeWhile_append_of_pos htext, hrest, List.append_nil]

/-- a text ends where a mark begins that is not in it -/
theorem append_inj_of_mark {mark : Char} {a b rest rest' : List Char} (ha : mark ∉ a) (hb : mark ∉ b)
    (hr : StartsAt mark rest) (hr' : StartsAt mark rest') (h : a ++ rest = b ++ rest') : a = b ∧ rest = rest' := by
  have hab : a = b := by
    calc a = (a ++ rest).takeWhile (· ≠ mark) := (takeWhile_before_mark ha hr).symm
      _ = (b ++ rest').takeWhile (· ≠ mark) := by rw [h]
      _ = b := takeWhile_before_mark hb hr'
  subst hab
  exact ⟨rfl, List.append_cancel_left h⟩

theorem startsAt_cons (mark : Char) (rest : List Char) : StartsAt mark (mark :: rest) := by
  rintro c ⟨⟩
  rfl

end Text

open Text

namespace RepoLocation

/-! ## The parts of the address -/

/-- a part that may be missing, behind the mark that tells it from a missing one -/
def marked (mark : String) (part : Option String) : String := part.elim "" (mark ++ ·)

/-- the path of a listing behind `repos`, up to the query -/
def listingPath (l : RepoLocation) : List Char :=
  l.owner.toList ++ '/' :: (l.repo.toList ++ '/' :: ("contents" ++ marked "/" l.subdirectory).toList)

theorem contentsUrl_toList (l : RepoLocation) (base : String) : (l.contentsUrl base).toList =
    (dropSlashes base ++ "/repos/").toList ++ (l.listingPath ++ (marked "?ref=" l.ref).toList) := by
  rw [contentsUrl_eq_elim, listingPath, marked, marked]
  simp

theorem marked_inj {mark : String} (hm : mark ≠ "") {part part' : Option String}
    (h : marked mark part = marked mark part') : part = part' := by
  have hne (s : String) : mark ++ s ≠ "" := by
    intro hempty
    rw [String.append_eq_empty_iff] at hempty
    exact hm hempty.1
  cases part with
  | none =>
    cases part' with
    | none => rfl
    | some s' => exact absurd h.symm (hne s')
  | some s =>
    cases part' with
    | none => exact absurd h (hne s)
    | some s' => rw [(String.append_right_inj mark).1 h]

section

variable {l l' : RepoLocation}

/-- no part in front of the query holds a question mark -/
theorem WellFormed.not_mem_listingPath (h : WellFormed l) : '?' ∉ l.listingPath := by
  have hsub : '?' ∉ (marked "/" l.subdirectory).toList := by
    cases hd : l.subdirectory with
    | none => exact List.not_mem_nil
    | some sub =>
      obtain ⟨segments, -, hsegments, rfl⟩ := h.subdirectory sub hd
      intro hmem
      have hjoin : '?' ∈ glue "/".toList (segments.map String.toList) := by simpa [marked, join] using hmem
      rcases mem_glue hjoin with hslash | ⟨p, hp, hmark⟩
      · exact absurd hslash (by decide)
      · obtain ⟨s, hs, rfl⟩ := List.mem_map.1 hp
        exact ((hsegments s hs).plain '?' hmark).2.1 rfl
  have howner : '?' ∉ l.owner.toList := fun hmem => (h.owner.plain '?' hmem).2.1 rfl
  have hrepo : '?' ∉ l.repo.toList := fun hmem => (h.repo '?' hmem).2.1 rfl
  simp [listingPath, howner, hrepo, hsub]

theorem startsAt_query (ref : Option String) : StartsAt '?' (marked "?ref=" ref).toList := by
  cases ref with
  | none => exact nofun
  | some ref =>
    have hquery : (marked "?ref=" (some ref)).toList = '?' :: ("ref=" ++ ref).toList := by simp [marked]
    rw [hquery]
    exact startsAt_cons _ _

/-- **Places that addresses name are told apart by their listings** -/
theorem WellFormed.eq_of_contentsUrl (h : WellFormed l) (h' : WellFormed l') {base : String}
    (heq : l.contentsUrl base = l'.contentsUrl base) : l = l' := by
  have hurl : l.listingPath ++ (marked "?ref=" l.ref).toList = l'.listingPath ++ (marked "?ref=" l'.ref).toList := by
    have hbase := congrArg String.toList heq
    rw [contentsUrl_toList, contentsUrl_toList] at hbase
    exact List.append_cancel_left hbase
  obtain ⟨hpath, hquery⟩ := append_inj_of_mark h.not_mem_listingPath h'.not_mem_listingPath (startsAt_query _)
    (startsAt_query _) hurl
  -- the slash behind the owner, then the one behind the name
  have howner : '/' ∉ l.owner.toList := fun hmem => (h.owner.plain '/' hmem).1 rfl
  have howner' : '/' ∉ l'.owner.toList := fun hmem => (h'.owner.plain '/' hmem).1 rfl
  obtain ⟨ho, hrest⟩ := append_inj_of_mark howner howner' (startsAt_cons _ _) (startsAt_cons _ _) hpath
  have hrepo : '/' ∉ l.repo.toList := fun hmem => (h.repo '/' hmem).1 rfl
  have hrepo' : '/' ∉ l'.repo.toList := fun hmem => (h'.repo '/' hmem).1 rfl
  obtain ⟨hr, hcontents⟩ :=
    append_inj_of_mark hrepo hrepo' (startsAt_cons _ _) (startsAt_cons _ _) (List.cons.inj hrest).2
  have hsub : marked "/" l.subdirectory = marked "/" l'.subdirectory :=
    (String.append_right_inj "contents").1 (String.toList_inj.1 (List.cons.inj hcontents).2)
  obtain ⟨owner, repo, ref, subdirectory⟩ := l
  obtain ⟨owner', repo', ref', subdirectory'⟩ := l'
  rw [RepoLocation.mk.injEq]
  refine ⟨String.toList_inj.1 ho, String.toList_inj.1 hr, ?_, ?_⟩
  · exact marked_inj (by decide) (String.toList_inj.1 hquery)
  · exact marked_inj (by decide) hsub

end

/-! ## The base -/

theorem dropSlashes_append (base : String) {more : String} (h : ∀ c ∈ more.toList, c = '/') :
    dropSlashes (base ++ more) = dropSlashes base := by
  have hdrop : (more.toList.reverse ++ base.toList.reverse).dropWhile (· = '/') =
      base.toList.reverse.dropWhile (· = '/') := by
    apply List.dropWhile_append_of_pos
    intro c hc
    simpa using h c (List.mem_reverse.1 hc)
  rw [dropSlashes, dropSlashes, String.toList_append, List.reverse_append, hdrop]

theorem contentsUrl_append_slashes (l : RepoLocation) (base : String) {more : String} (h : ∀ c ∈ more.toList, c = '/') :
    l.contentsUrl (base ++ more) = l.contentsUrl base := by
  rw [contentsUrl, contentsUrl, dropSlashes_append base h]

/-- **The address of the listing identifies the place.** Two addresses that are read as places with the same listing are
read as one place: owner, name, ref and directory. Slashes behind the base make no difference to a listing. -/
theorem contentsUrl_identifies_place (base : String) :
    (∀ url url' l l', parse url = .ok l → parse url' = .ok l' → l.contentsUrl base = l'.contentsUrl base →
      l.owner = l'.owner ∧ l.repo = l'.repo ∧ l.ref = l'.ref ∧ l.subdirectory = l'.subdirectory) ∧
    ∀ (l : RepoLocation) (more : String), (∀ c ∈ more.toList, c = '/') →
      l.contentsUrl (base ++ more) = l.contentsUrl base := by
  constructor
  · intro url url' l l' hl hl' heq
    have hsame : l = l' := (wellFormed_of_parse hl).eq_of_contentsUrl (wellFormed_of_parse hl') heq
    subst hsame
    exact ⟨rfl, rfl, rfl, rfl⟩
  · intro l more hmore
    exact contentsUrl_append_slashes l base hmore

/-- the name and the directory look like other parts of the address of a listing -/
def contentsPlace : RepoLocation := ⟨"acme", "contents", some "repos", some "repos/acme/contents"⟩

def contentsAddress : String := "https://github.com/acme/contents/tree/repos/repos/acme/contents"

/-- the same place, with slashes, `.git`, a query and blanks that make no difference -/
def spacedAddress : String := " https://github.com/acme//contents.git/tree/repos/repos//acme/contents/?ref=main "

theorem contentsAddress_place :
    parse contentsAddress = .ok contentsPlace ∧
      (∀ l, parse spacedAddress = .ok l →
        contentsPlace.contentsUrl defaultApiBase = l.contentsUrl defaultApiBase →
        contentsPlace.owner = l.owner ∧ contentsPlace.repo = l.repo ∧ contentsPlace.ref = l.ref ∧
          contentsPlace.subdirectory = l.subdirectory) ∧
      (∃ l, parse spacedAddress = .ok l ∧ contentsPlace.contentsUrl defaultApiBase = l.contentsUrl defaultApiBase) ∧
      contentsPlace.contentsUrl (defaultApiBase ++ "//") =
        "https://api.github.com/repos/acme/contents/contents/repos/acme/contents?ref=repos" := by
  have hparse : parse contentsAddress = .ok contentsPlace := by decide +kernel
  have hspaced : parse spacedAddress = .ok contentsPlace := by decide +kernel
  obtain ⟨hsame, hslashes⟩ := contentsUrl_identifies_place defaultApiBase
  refine ⟨hparse, fun l hl heq => hsame _ _ _ l hparse hl heq, ⟨_, hspaced, rfl⟩, ?_⟩
  rw [hslashes contentsPlace "//" (by simp)]
  decide

/-- what addresses are read as is needed: a directory with a question mark may be taken for one with a ref -/
example : contentsUrl ⟨"acme", "repo", none, some "src?ref=main"⟩ defaultApiBase =
    contentsUrl ⟨"acme", "repo", some "main", some "src"⟩ defaultApiBase := by decide

end RepoLocation

end ImportHarvest

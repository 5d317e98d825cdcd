import ImportHarvest.Proofs.Addresses
/-!
What a place has that is read from an address.

The segments of an address are not empty and hold no mark of an address, and what is made of them keeps that
(`WellFormed`): the owner, the ref and each segment of the directory are segments as they are, and the name is the start
of one. Taking `.git` off its end may leave nothing of it, when there was nothing else (`stripped_empty_iff`), and then
the address of the listing has an empty segment (`gitAddress_no_name`); in all other places it has none
(`place_of_address`).
-/

namespace ImportHarvest

namespace Text

theorem join_cons_cons (sep s t : String) (rest : List String) :
    join sep (s :: t :: rest) = s ++ sep ++ join sep (t :: rest) := by
  rw [← String.toList_inj]
  simp [join, glue]

end Text

open Text

namespace RepoLocation

/-! ## Names without their endings -/

/-- what is left of a segment is a start of it -/
theorem Stripped.isPrefix {s name : String} (h : Stripped s name) : name.toList <+: s.toList := by
  induction h with
  | done => exact List.prefix_refl _
  | dotGit _ ih =>
    rw [String.toList_append]
    exact ih.trans (List.prefix_append _ _)

theorem Stripped.not_dotGit {s name : String} (h : Stripped s name) : ¬ ".git".toList <:+ name.toList := by
  induction h with
  | done h => exact h
  | dotGit _ ih => exact ih

theorem Stripped.unique {s name name' : String} (h : Stripped s name) (h' : Stripped s name') : name = name' :=
  (stripped_iff.1 h).trans (stripped_iff.1 h').symm

/-- nothing is left of a segment that is made of `.git` alone -/
theorem stripped_empty_iff {s : String} : Stripped s "" ↔ ∃ n, s = String.join (List.replicate n ".git") := by
  have hjoin (n : Nat) : String.join (List.replicate (n + 1) ".git") = String.join (List.replicate n ".git") ++ ".git" := by
    rw [← String.toList_inj, List.replicate_succ']
    simp
  constructor
  · intro h
    generalize hname : "" = name at h
    induction h with
    | done => exact ⟨0, hname.symm⟩
    | dotGit _ ih =>
      obtain ⟨n, rfl⟩ := ih hname
      exact ⟨n + 1, (hjoin n).symm⟩
  · rintro ⟨n, rfl⟩
    induction n with
    | zero => exact .done (by decide)
    | succ n ih =>
      rw [hjoin]
      exact .dotGit ih

/-! ## Places -/

/-- a place as an address names one: its parts hold no mark of an address, none but its name is empty, and it has a
directory only with a ref -/
structure WellFormed (l : RepoLocation) : Prop where
  owner : IsName l.owner
  repo : ∀ c ∈ l.repo.toList, c ≠ '/' ∧ c ≠ '?' ∧ c ≠ '#'
  noDotGit : ¬ ".git".toList <:+ l.repo.toList
  ref : ∀ ref ∈ l.ref, IsName ref
  subdirectory : ∀ sub ∈ l.subdirectory, ∃ segments, segments ≠ [] ∧ (∀ s ∈ segments, IsName s) ∧ sub = join "/" segments
  below : l.subdirectory ≠ none → l.ref ≠ none

section

variable {segments : List String} {l : RepoLocation}

theorem Locates.wellFormed (h : Locates segments l) (hn : ∀ s ∈ segments, IsName s) : WellFormed l := by
  have hplain {repo name : String} (hname : Stripped repo name) (hr : IsName repo) :
      ∀ c ∈ name.toList, c ≠ '/' ∧ c ≠ '?' ∧ c ≠ '#' := fun c hc => hr.plain c (hname.isPrefix.subset hc)
  cases h with
  | root hname =>
    obtain ⟨howner, hrepo, -⟩ := by simpa using hn
    exact ⟨howner, hplain hname hrepo, hname.not_dotGit, nofun, nofun, fun hsub => absurd rfl hsub⟩
  | ref hname =>
    obtain ⟨howner, hrepo, -, href⟩ := by simpa using hn
    exact ⟨howner, hplain hname hrepo, hname.not_dotGit, fun _ h => Option.some.inj h ▸ href, nofun,
      fun hsub => absurd rfl hsub⟩
  | directory hname hsub =>
    obtain ⟨howner, hrepo, -, href, hsegments⟩ := by simpa using hn
    exact ⟨howner, hplain hname hrepo, hname.not_dotGit, fun _ h => Option.some.inj h ▸ href,
      fun _ h => ⟨_, hsub, hsegments, (Option.some.inj h).symm⟩, fun _ => nofun⟩

/-- the name of a place is what is left of the second segment -/
theorem Locates.exists_name (h : Locates segments l) :
    ∃ owner repo rest, segments = owner :: repo :: rest ∧ Stripped repo l.repo := by
  cases h with
  | root hname => exact ⟨_, _, _, rfl, hname⟩
  | ref hname => exact ⟨_, _, _, rfl, hname⟩
  | directory hname => exact ⟨_, _, _, rfl, hname⟩

theorem wellFormed_of_parse {url : String} (h : parse url = .ok l) : WellFormed l := by
  obtain ⟨segments, hleads, hl⟩ := parse_eq_ok_iff.1 h
  exact hl.wellFormed hleads.isName

theorem contentsUrl_eq_elim (l : RepoLocation) (base : String) : l.contentsUrl base =
    dropSlashes base ++ "/repos/" ++ (l.owner ++ "/" ++ l.repo) ++ "/contents" ++ l.subdirectory.elim "" ("/" ++ ·) ++
      l.ref.elim "" ("?ref=" ++ ·) := by
  obtain ⟨owner, repo, ref, subdirectory⟩ := l
  cases ref <;> cases subdirectory <;> rfl

/-- the address of a listing: the base, a path, and the ref as a query -/
theorem WellFormed.contentsUrl_eq (h : WellFormed l) (base : String) :
    ∃ sub query, (∀ s ∈ sub, IsName s) ∧ (query = "" ∨ ∃ ref, IsName ref ∧ query = "?ref=" ++ ref) ∧
      l.contentsUrl base =
        dropSlashes base ++ "/" ++ join "/" ("repos" :: l.owner :: l.repo :: "contents" :: sub) ++ query := by
  obtain ⟨sub, hsub, hpath⟩ : ∃ sub, (∀ s ∈ sub, IsName s) ∧
      join "/" ("contents" :: sub) = "contents" ++ l.subdirectory.elim "" ("/" ++ ·) := by
    cases hd : l.subdirectory with
    | none => exact ⟨[], nofun, rfl⟩
    | some sub =>
      obtain ⟨segments, hne, hsegments, rfl⟩ := h.subdirectory sub hd
      obtain ⟨s, segments, rfl⟩ := List.exists_cons_of_ne_nil hne
      exact ⟨_, hsegments, by rw [join_cons_cons, String.append_assoc, Option.elim_some]⟩
  have hquery : l.ref.elim "" ("?ref=" ++ ·) = "" ∨ ∃ ref, IsName ref ∧ l.ref.elim "" ("?ref=" ++ ·) = "?ref=" ++ ref := by
    cases hr : l.ref with
    | none => exact .inl rfl
    | some ref => exact .inr ⟨ref, h.ref ref hr, rfl⟩
  refine ⟨sub, _, hsub, hquery, ?_⟩
  rw [contentsUrl_eq_elim, join_cons_cons, join_cons_cons, join_cons_cons, hpath, ← String.toList_inj]
  simp

end

/-- **A place that is read from an address is a repository, but for a name made of `.git` alone.** Its owner is not empty,
and neither owner nor name holds a mark of an address. Its name is empty exactly when the second segment of the address
is `.git`, once or more often; the address of its listing has no other segment behind the base that could be empty. An
address is refused exactly when it leads to fewer than two segments. -/
theorem place_of_address (url : String) :
    (∀ l, parse url = .ok l →
      IsName l.owner ∧ (∀ c ∈ l.repo.toList, c ≠ '/' ∧ c ≠ '?' ∧ c ≠ '#') ∧
        (l.repo = "" ↔ ∃ owner n rest, Leads url (owner :: String.join (List.replicate (n + 1) ".git") :: rest)) ∧
        ∀ base, ∃ sub query, (∀ s ∈ sub, IsName s) ∧ (query = "" ∨ ∃ ref, IsName ref ∧ query = "?ref=" ++ ref) ∧
          l.contentsUrl base =
            dropSlashes base ++ "/" ++ join "/" ("repos" :: l.owner :: l.repo :: "contents" :: sub) ++ query) ∧
      (parse url = .error (refusal url) ↔ ∀ owner repo rest, ¬ Leads url (owner :: repo :: rest)) := by
  refine ⟨fun l hl => ?_, parse_eq_error_iff⟩
  have hform : WellFormed l := wellFormed_of_parse hl
  refine ⟨hform.owner, hform.repo, ?_, hform.contentsUrl_eq⟩
  obtain ⟨segments, hleads, hlocates⟩ := parse_eq_ok_iff.1 hl
  obtain ⟨owner, repo, rest, rfl, hname⟩ := hlocates.exists_name
  constructor
  · intro hempty
    rw [hempty] at hname
    obtain ⟨n, rfl⟩ := stripped_empty_iff.1 hname
    cases n with
    | zero =>
      -- no segment is empty
      have hne := (hleads.isName _ (List.mem_cons_of_mem _ (List.mem_cons_self ..))).nonempty
      exact absurd rfl hne
    | succ n => exact ⟨owner, n, rest, hleads⟩
  · rintro ⟨owner', n, rest', hleads'⟩
    obtain ⟨-, rfl, -⟩ : owner = owner' ∧ repo = _ ∧ rest = rest' := by simpa using hleads.unique hleads'
    exact hname.unique (stripped_empty_iff.2 ⟨n + 1, rfl⟩)

/-- `.git` twice behind the name, a directory, and a slash too many before the query -/
def packageAddress : String := "https://github.com/acme/repo.git.git/tree/v1/src//pkg/?plain=1"

def packagePlace : RepoLocation := ⟨"acme", "repo", some "v1", some "src/pkg"⟩

theorem packageAddress_place :
    parse packageAddress = .ok packagePlace ∧ IsName "acme" ∧
      ∃ sub query, (∀ s ∈ sub, IsName s) ∧ (query = "" ∨ ∃ ref, IsName ref ∧ query = "?ref=" ++ ref) ∧
        packagePlace.contentsUrl defaultApiBase =
          "https://api.github.com" ++ "/" ++ join "/" ("repos" :: "acme" :: "repo" :: "contents" :: sub) ++ query := by
  have hparse : parse packageAddress = .ok packagePlace := by decide +kernel
  obtain ⟨howner, -, -, hlisting⟩ := (place_of_address packageAddress).1 packagePlace hparse
  exact ⟨hparse, howner, hlisting defaultApiBase⟩

/-- **A name made of `.git` is taken for a repository without one** -/
theorem gitAddress_no_name : ∃ l, parse "https://github.com/acme/.git" = .ok l ∧ l.repo = "" ∧
    l.contentsUrl defaultApiBase = "https://api.github.com/repos/acme//contents" :=
  ⟨⟨"acme", "", none, none⟩, by decide +kernel, rfl, by decide⟩

end RepoLocation

end ImportHarvest

import ImportHarvest.Proofs.WrittenAddresses
import ImportHarvest.Selection
/-!
Addresses of other hosts.

The host of an address is looked for as a text, so an address of another host is refused unless that text is in it. Where
it can be is settled by the slashes: `github.com/` has one, at its end, so in front of the path it can only be the end of
the authority (`foreign_host_place`), and of a longer one than `github.com` itself. An address with the text in it is
misread as one of a repository when two segments follow (`Misread`), and is refused otherwise
(`foreign_address_misread`).
-/

namespace ImportHarvest

open Text

namespace RepoLocation

/-! ## Blanks around an address -/

theorem toList_trimmed (url : String) : (trimmed url).toList = trim url.toList := String.toList_ofList

theorem leads_trimmed {url : String} {segments : List String} : Leads (trimmed url) segments ↔ Leads url segments := by
  have htrim : trim (trimmed url).toList = trim url.toList := by rw [toList_trimmed, trim_trim]
  rw [Leads, Leads, htrim]

/-- an address of the web still starts with its scheme when blanks are off, and nothing is lost in front -/
theorem trim_of_http {url : String} {rest : List Char} (h : url.toList = "http".toList ++ rest) :
    ∃ kept lost, trim url.toList = "http".toList ++ kept ∧ rest = kept ++ lost := by
  have hdrop : url.toList.dropWhile isBlank = "htt".toList ++ 'p' :: rest := by
    rw [h]
    rfl
  have htrim : trim url.toList = "htt".toList ++ 'p' :: trimEnd rest := by
    rw [trim, hdrop]
    exact trimEnd_append_cons (by decide)
  obtain ⟨lost, hlost⟩ : trimEnd rest <+: rest := List.rdropWhile_prefix isBlank rest
  exact ⟨trimEnd rest, lost, htrim, hlost.symm⟩

/-! ## Where the host can be -/

/-- an address of the web whose authority is another than the host's; behind it comes nothing, a path, a query or a
fragment -/
structure IsForeign (scheme authority rest : String) : Prop where
  scheme : scheme = "http" ∨ scheme = "https"
  plain : ∀ c ∈ authority.toList, c ≠ '/' ∧ c ≠ '?' ∧ c ≠ '#'
  rest : ∀ c ∈ rest.toList.head?, c = '/' ∨ c = '?' ∨ c = '#'
  other : authority ≠ "github.com" ∧ authority ≠ "www.github.com"

/-- scheme and authority -/
def originOf (scheme authority : String) : String := scheme ++ "://" ++ authority

/-- the host stands at the end of a longer authority, or behind the authority -/
inductive HostPlace (scheme authority : String) (before : List Char) : Prop where
  | ending {sub : String} : sub ≠ "" → sub ≠ "www." → authority = sub ++ "github.com" →
    before = (originOf scheme sub).toList → HostPlace scheme authority before
  | behind : (originOf scheme authority).toList <+: before → HostPlace scheme authority before

section

variable {scheme authority rest : String} {before after : List Char}

theorem IsForeign.http (h : IsForeign scheme authority rest) :
    ∃ more, (originOf scheme authority ++ rest).toList = "http".toList ++ more := by
  rcases h.scheme with rfl | rfl <;> simp [originOf]

/-- no slash follows a letter in front of the path -/
theorem IsForeign.no_letter_slash (h : IsForeign scheme authority rest) :
    ¬ ['m', '/'] <:+: (originOf scheme authority).toList := by
  have hauthority : ¬ ['m', '/'] <:+: authority.toList := fun hin => (h.plain '/' (hin.subset (by simp))).1 rfl
  rcases h.scheme with rfl | rfl <;> simpa [originOf, List.infix_cons_iff] using hauthority

/-- an authority at whose end the host stands is longer than it -/
theorem IsForeign.ending (h : IsForeign scheme authority rest)
    (hend : (originOf scheme authority).toList = before ++ "github.com".toList) : HostPlace scheme authority before := by
  have horigin : (originOf scheme authority).toList = (scheme ++ "://").toList ++ authority.toList := by
    rw [originOf, String.toList_append]
  rcases List.append_eq_append_iff.1 (horigin.symm.trans hend) with ⟨x, rfl, hx⟩ | ⟨x, hstart, hx⟩
  · have hsub : authority = String.ofList x ++ "github.com" := by
      rw [← String.toList_inj, hx]
      simp
    refine .ending ?_ ?_ hsub (by simp [originOf])
    · intro hempty
      exact h.other.1 (by rw [hsub, hempty]; rfl)
    · intro hwww
      exact h.other.2 (by rw [hsub, hwww]; rfl)
  · -- the slashes of the scheme would be in the host
    rcases List.eq_nil_or_concat x with rfl | ⟨x, c, rfl⟩
    · exact absurd (String.toList_inj.1 hx.symm) h.other.1
    · have hc : c = '/' := by
        have hlast := congrArg List.getLast? hstart
        rcases h.scheme with rfl | rfl <;> simpa using hlast.symm
      have hmem : '/' ∈ "github.com".toList := by
        rw [hx, hc]
        simp
      exact absurd hmem (by decide)

/-- **In a foreign address the host is the end of a longer authority, or stands behind the authority** -/
theorem foreign_host_place (h : IsForeign scheme authority rest)
    (hfirst : FirstAt "github.com/".toList (trim (originOf scheme authority ++ rest).toList) before after) :
    HostPlace scheme authority before := by
  have hurl : (originOf scheme authority ++ rest).toList = (originOf scheme authority).toList ++ rest.toList :=
    String.toList_append
  obtain ⟨more, hmore⟩ := h.http
  obtain ⟨kept, lost, htrim, rfl⟩ := trim_of_http hmore
  have hhost : "github.com/".toList = "github.com".toList ++ ['/'] := by decide
  have hwhole : before ++ ("github.com".toList ++ '/' :: (after ++ lost)) =
      (originOf scheme authority).toList ++ rest.toList := by
    calc before ++ ("github.com".toList ++ '/' :: (after ++ lost))
        = before ++ ("github.com/".toList ++ after) ++ lost := by rw [hhost]; simp
      _ = "http".toList ++ kept ++ lost := by rw [hfirst.whole, htrim]
      _ = (originOf scheme authority).toList ++ rest.toList := by rw [List.append_assoc, ← hmore, hurl]
  rcases List.append_eq_append_iff.1 hwhole with ⟨x, horigin, hx⟩ | ⟨x, hbefore, -⟩
  · -- the host begins in front of the path
    rcases List.append_eq_append_iff.1 hx with ⟨y, rfl, hy⟩ | ⟨y, hletters, hy⟩
    · cases y with
      | nil => exact h.ending (by rw [horigin, List.append_nil])
      | cons c y =>
        obtain ⟨rfl, -⟩ := List.cons.inj hy
        refine absurd ⟨before ++ "github.co".toList, y, ?_⟩ h.no_letter_slash
        rw [horigin]
        simp
    · cases y with
      | nil =>
        rw [List.append_nil] at hletters
        exact h.ending (by rw [horigin, hletters])
      | cons c y =>
        -- what follows the authority is no letter of the host
        have hmark : c = '/' ∨ c = '?' ∨ c = '#' := h.rest c (by rw [hy]; rfl)
        have hletter : c ∈ "github.com".toList := by
          rw [hletters]
          simp
        rcases hmark with rfl | rfl | rfl <;> exact absurd hletter (by decide)
  · exact .behind ⟨x, hbefore.symm⟩

end

/-! ## Foreign addresses that are misread -/

/-- a foreign address is misread: behind the first `github.com/` in it, which is the end of its authority or stands
behind that, come two segments -/
def Misread (scheme authority rest : String) : Prop :=
  ∃ before path tail owner repo more,
    FirstAt "github.com/".toList (trim (originOf scheme authority ++ rest).toList) before (path ++ tail) ∧
      HasSegments path (owner :: repo :: more) ∧ EndsPath tail ∧ HostPlace scheme authority before

theorem misread_iff {scheme authority rest : String} (h : IsForeign scheme authority rest) :
    Misread scheme authority rest ↔
      ∃ owner repo more, Leads (originOf scheme authority ++ rest) (owner :: repo :: more) := by
  constructor
  · rintro ⟨before, path, tail, owner, repo, more, hfirst, hsegments, htail, -⟩
    exact ⟨owner, repo, more, before, path, tail, hfirst, hsegments, htail⟩
  · rintro ⟨owner, repo, more, before, path, tail, hfirst, hsegments, htail⟩
    exact ⟨before, path, tail, owner, repo, more, hfirst, hsegments, htail, foreign_host_place h hfirst⟩

/-- an input that is an address of the web is read as an address of a repository -/
theorem ofInput_of_http (disk : Disk) (config : Config) {url : String} {rest : List Char}
    (h : url.toList = "http".toList ++ rest) : Selection.ofInput disk config url =
      (parse (trimmed url)).map fun l => .remote (l.contentsUrl config.apiBaseUrl) := by
  obtain ⟨kept, -, htrim, -⟩ := trim_of_http h
  have hstart : startsWith "http" (trimmed url) = true := by
    rw [startsWith, toList_trimmed, dropStart?_eq_some.2 htrim.symm]
    rfl
  rw [Selection.ofInput]
  simp only [hstart, if_true]
  cases parse (trimmed url) <;> rfl

/-- **A foreign address is refused unless it is misread.** An address of the web whose authority is not the host of
repositories, with or without `www.`, is refused exactly when it has no `github.com/` in it that two segments follow, at
the end of the authority or behind it. An input that is refused has no source, and one that is misread has a remote
one. -/
theorem foreign_address_misread (disk : Disk) (config : Config) (scheme authority rest : String)
    (h : IsForeign scheme authority rest) :
    (parse (originOf scheme authority ++ rest) = .error (refusal (originOf scheme authority ++ rest)) ↔
      ¬ Misread scheme authority rest) ∧
    (Selection.ofInput disk config (originOf scheme authority ++ rest) =
        .error (refusal (trimmed (originOf scheme authority ++ rest))) ↔ ¬ Misread scheme authority rest) ∧
    ((∃ rootUrl, Selection.ofInput disk config (originOf scheme authority ++ rest) = .ok (.remote rootUrl)) ↔
      Misread scheme authority rest) := by
  obtain ⟨more, hmore⟩ := h.http
  have hrefused : (∀ owner repo more, ¬ Leads (originOf scheme authority ++ rest) (owner :: repo :: more)) ↔
      ¬ Misread scheme authority rest := by
    rw [misread_iff h]
    simp only [not_exists]
  have htrimmed : parse (trimmed (originOf scheme authority ++ rest)) =
      .error (refusal (trimmed (originOf scheme authority ++ rest))) ↔ ¬ Misread scheme authority rest := by
    rw [parse_eq_error_iff, ← hrefused]
    simp only [leads_trimmed]
  rw [ofInput_of_http disk config hmore]
  refine ⟨parse_eq_error_iff.trans hrefused, ?_, ?_⟩
  · rw [← htrimmed]
    cases parse (trimmed (originOf scheme authority ++ rest)) <;> simp [Except.map]
  · rw [← not_iff_not, ← htrimmed]
    cases hparse : parse (trimmed (originOf scheme authority ++ rest)) with
    | ok l => simp [Except.map]
    | error f => simp [Except.map, refusal_of_parse hparse]

/-- the host stands in the query here, but one segment only follows it -/
theorem queryAddress_refused : IsForeign "https" "example.com" "/acme/repo?next=github.com/acme" ∧
    ¬ Misread "https" "example.com" "/acme/repo?next=github.com/acme" ∧
      Selection.ofInput .empty .standard "https://example.com/acme/repo?next=github.com/acme" =
        .error (refusal "https://example.com/acme/repo?next=github.com/acme") := by
  have h : IsForeign "https" "example.com" "/acme/repo?next=github.com/acme" :=
    ⟨.inr rfl, by simp, by simp, by decide⟩
  obtain ⟨hparse, hinput, -⟩ := foreign_address_misread .empty .standard "https" "example.com" "/acme/repo?next=github.com/acme" h
  have hplain : ¬ Misread "https" "example.com" "/acme/repo?next=github.com/acme" := hparse.1 (by decide +kernel)
  exact ⟨h, hplain, hinput.2 hplain⟩

/-- **A host that only ends like the host of repositories is taken for it** -/
theorem endingAddress_read : IsForeign "https" "notgithub.com" "/acme/repo" ∧
    parse "https://notgithub.com/acme/repo" = .ok ⟨"acme", "repo", none, none⟩ :=
  ⟨⟨.inr rfl, by simp, by simp, by decide⟩, by decide +kernel⟩

end RepoLocation

end ImportHarvest

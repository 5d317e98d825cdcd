import ImportHarvest.Proofs.Trimmed
import ImportHarvest.Repository
import Mathlib.Data.List.TakeWhile
/-!
Addresses of repositories, part by part.

What an address names is said without its reader. Behind the first `github.com/` in it comes a path, up to a query or a
fragment (`Leads`); a path has its segments with slashes around them, in any number (`HasSegments`); the first two
segments are the owner and the name, which loses every `.git` at its end (`Stripped`), and behind `tree` come a ref and a
directory (`Locates`). An address is read as a place exactly when it leads to segments that locate it
(`parse_eq_ok_iff`), and it is no address of a repository exactly when it has fewer than two (`parse_eq_error_iff`).
-/

namespace ImportHarvest

namespace Text

/-! ## The first occurrence of a text -/

/-- a mark stands in a text: `before` is what is in front of its first occurrence, `after` what follows it -/
structure FirstAt (mark text before after : List Char) : Prop where
  whole : before ++ (mark ++ after) = text
  first : ∀ {b a : List Char}, b ++ (mark ++ a) = text → before.length ≤ b.length

section

variable {mark text before after : List Char}

theorem splitAtFirst?_eq_some_iff : splitAtFirst? mark text = some (before, after) ↔ FirstAt mark text before after := by
  induction text generalizing before with
  | nil =>
    rw [splitAtFirst?]
    constructor
    · intro h
      split at h
      · rename_i hm
        cases h
        exact ⟨by simp [hm], fun _ => Nat.zero_le _⟩
      · cases h
    · intro h
      have hw := h.whole
      simp only [List.append_eq_nil_iff] at hw
      obtain ⟨rfl, rfl, rfl⟩ := hw
      rfl
  | cons c text ih =>
    rw [splitAtFirst?]
    cases hd : dropStart? mark (c :: text) with
    | some rest =>
      have hstart : mark ++ rest = c :: text := dropStart?_eq_some.1 hd
      dsimp only
      constructor
      · intro h
        cases h
        exact ⟨hstart, fun _ => Nat.zero_le _⟩
      · intro h
        obtain rfl : before = [] := List.length_eq_zero_iff.1 (Nat.le_zero.1 (h.first (b := []) hstart))
        have hsame : mark ++ after = mark ++ rest := h.whole.trans hstart.symm
        rw [List.append_cancel_left hsame]
    | none =>
      -- the mark does not stand at the start, so every place where it stands is one further on
      have hlater : ∀ {b a : List Char}, b ++ (mark ++ a) = c :: text → ∃ b', b = c :: b' ∧ b' ++ (mark ++ a) = text := by
        intro b a h
        cases b with
        | nil =>
          have hstart : dropStart? mark (c :: text) = some a := dropStart?_eq_some.2 h
          rw [hd] at hstart
          cases hstart
        | cons d b =>
          obtain ⟨rfl, htext⟩ := List.cons.inj h
          exact ⟨b, rfl, htext⟩
      dsimp only
      rw [Option.map_eq_some_iff]
      constructor
      · rintro ⟨⟨b, a⟩, hsplit, heq⟩
        cases heq
        obtain ⟨hwhole, hfirst⟩ := ih.1 hsplit
        refine ⟨congrArg (c :: ·) hwhole, fun h => ?_⟩
        obtain ⟨b', rfl, htext⟩ := hlater h
        exact Nat.succ_le_succ (hfirst htext)
      · intro h
        obtain ⟨b, rfl, htext⟩ := hlater h.whole
        refine ⟨(b, after), ih.2 ⟨htext, fun {b' a'} h' => ?_⟩, rfl⟩
        have hle : (c :: b).length ≤ (c :: b').length := h.first (congrArg (c :: ·) h')
        exact Nat.le_of_succ_le_succ hle

/-- a mark stands first behind a text that does not hold its first character -/
theorem FirstAt.of_not_mem {c : Char} (h : c ∉ before) : FirstAt (c :: mark) (before ++ (c :: mark ++ after)) before after := by
  refine ⟨rfl, fun {b a} heq => ?_⟩
  by_contra hlt
  -- the character would stand inside `before`
  rcases List.append_eq_append_iff.1 heq with ⟨x, rfl, hx⟩ | ⟨x, rfl, hx⟩
  · cases x with
    | nil => simp at hlt
    | cons d x =>
      obtain ⟨rfl, -⟩ := List.cons.inj hx
      simp at h
  · simp at hlt

end

end Text

open Text

namespace RepoLocation

/-! ## Segments of a path -/

/-- a text that can be a segment: it is not empty, and nothing in it ends a segment or the path -/
structure IsName (s : String) : Prop where
  nonempty : s ≠ ""
  plain : ∀ c ∈ s.toList, c ≠ '/' ∧ c ≠ '?' ∧ c ≠ '#'

theorem isName_iff (s : String) : IsName s ↔ s ≠ "" ∧ s.toList.all (fun c => c ≠ '/' ∧ c ≠ '?' ∧ c ≠ '#') = true := by
  constructor
  · intro h
    exact ⟨h.nonempty, by simpa using h.plain⟩
  · rintro ⟨hne, hplain⟩
    exact ⟨hne, by simpa using hplain⟩

instance (s : String) : Decidable (IsName s) := decidable_of_iff' _ (isName_iff s)

/-- a path has these segments: at least one slash between each two, and any number of them in front and behind -/
inductive HasSegments : List Char → List String → Prop where
  | none : HasSegments [] []
  | slash {path : List Char} {segments : List String} : HasSegments path segments → HasSegments ('/' :: path) segments
  | last {s : String} : IsName s → HasSegments s.toList [s]
  | segment {s : String} {path : List Char} {segments : List String} :
    IsName s → HasSegments path segments → HasSegments (s.toList ++ '/' :: path) (s :: segments)

/-- what may follow a path: nothing, or a query or a fragment -/
def EndsPath (tail : List Char) : Prop := ∀ c ∈ tail.head?, c = '?' ∨ c = '#'

/-- an address leads to these segments: blanks around it apart, they make the path behind the first `github.com/` in it -/
def Leads (url : String) (segments : List String) : Prop :=
  ∃ before path tail, FirstAt "github.com/".toList (trim url.toList) before (path ++ tail) ∧ HasSegments path segments ∧
    EndsPath tail

section

variable {path : List Char} {segments : List String}

theorem HasSegments.plain (h : HasSegments path segments) : ∀ c ∈ path, c ≠ '?' ∧ c ≠ '#' := by
  induction h with
  | none => exact nofun
  | slash _ ih => exact List.forall_mem_cons.2 ⟨by decide, ih⟩
  | last hs => exact fun c hc => (hs.plain c hc).2
  | segment hs _ ih =>
    exact List.forall_mem_append.2 ⟨fun c hc => (hs.plain c hc).2, List.forall_mem_cons.2 ⟨by decide, ih⟩⟩

theorem HasSegments.isName (h : HasSegments path segments) : ∀ s ∈ segments, IsName s := by
  induction h with
  | none => exact nofun
  | slash _ ih => exact ih
  | last hs => exact List.forall_mem_singleton.2 hs
  | segment hs _ ih => exact List.forall_mem_cons.2 ⟨hs, ih⟩

theorem IsName.toList_ne_nil {s : String} (h : IsName s) : s.toList ≠ [] :=
  fun hs => h.nonempty (String.toList_eq_nil_iff.1 hs)

theorem IsName.pieces_eq {s : String} (h : IsName s) : pieces '/' s.toList = [s.toList] :=
  pieces_of_not_mem fun hc => (h.plain '/' hc).1 rfl

/-- the segments of a path are its pieces that hold something -/
theorem HasSegments.pieces_eq (h : HasSegments path segments) :
    (pieces '/' path).filter (· ≠ []) = segments.map String.toList := by
  induction h with
  | none => rfl
  | slash _ ih => exact ih
  | last hs => simp [hs.pieces_eq, hs.toList_ne_nil]
  | segment hs _ ih =>
    rw [pieces_append, hs.pieces_eq, List.filter_append, ih]
    simp [hs.toList_ne_nil]

/-- pieces without slashes, put together with slashes, have those as segments that hold something -/
theorem hasSegments_glue {ps : List (List Char)} (h : ∀ p ∈ ps, '/' ∉ p) (hplain : ∀ c ∈ glue ['/'] ps, c ≠ '?' ∧ c ≠ '#') :
    HasSegments (glue ['/'] ps) ((ps.filter (· ≠ [])).map String.ofList) := by
  have hname : ∀ p : List Char, p ≠ [] → '/' ∉ p → (∀ c ∈ p, c ≠ '?' ∧ c ≠ '#') → IsName (String.ofList p) := by
    intro p hne hslash hp
    refine ⟨by simpa using hne, fun c hc => ?_⟩
    rw [String.toList_ofList] at hc
    exact ⟨fun heq => hslash (heq ▸ hc), hp c hc⟩
  fun_induction glue ['/'] ps with
  | case1 => exact .none
  | case2 p =>
    by_cases hne : p = []
    · subst hne
      exact .none
    · have hlast : HasSegments (String.ofList p).toList [String.ofList p] :=
        .last (hname p hne (h p (List.mem_singleton_self p)) hplain)
      simpa [hne] using hlast
  | case3 p q ps ih =>
    obtain ⟨hp, hps⟩ := List.forall_mem_cons.1 h
    obtain ⟨hstart, hrest⟩ := List.forall_mem_append.1 hplain
    have hsegments := ih hps hrest
    by_cases hne : p = []
    · subst hne
      exact .slash hsegments
    · have hsegment := HasSegments.segment (hname p hne hp (List.forall_mem_append.1 hstart).1) hsegments
      rw [List.filter_cons_of_pos (by simpa using hne), List.map_cons]
      simpa using hsegment

/-- a path without the marks that end one has its pieces that hold something as segments -/
theorem hasSegments_pieces (h : ∀ c ∈ path, c ≠ '?' ∧ c ≠ '#') :
    HasSegments path (((pieces '/' path).filter (· ≠ [])).map String.ofList) := by
  have hglue : HasSegments (glue ['/'] (pieces '/' path)) _ :=
    hasSegments_glue (fun _ => not_mem_of_mem_pieces) (by rwa [glue_pieces])
  rwa [glue_pieces] at hglue

end

/-! ## What an address leads to -/

theorem parts_of_hasSegments {path tail : List Char} {segments : List String} (h : HasSegments path segments)
    (htail : EndsPath tail) : parts (path ++ tail) = segments.map String.toList := by
  have hpath : ∀ c ∈ path, (c ≠ '?' && c ≠ '#') = true := by simpa using h.plain
  have hend : tail.takeWhile (fun c => c ≠ '?' && c ≠ '#') = [] := by
    cases tail with
    | nil => rfl
    | cons c tail =>
      rcases htail c rfl with rfl | rfl <;> rfl
  rw [parts, List.takeWhile_append_of_pos hpath, hend, List.append_nil, h.pieces_eq]

theorem leads_iff {url : String} {segments : List String} : Leads url segments ↔
    ∃ before rest, splitAtFirst? host (trim url.toList) = some (before, rest) ∧
      parts rest = segments.map String.toList := by
  constructor
  · rintro ⟨before, path, tail, hfirst, hsegments, htail⟩
    exact ⟨before, path ++ tail, splitAtFirst?_eq_some_iff.2 hfirst, parts_of_hasSegments hsegments htail⟩
  · rintro ⟨before, rest, hsplit, hparts⟩
    have hplain : ∀ c ∈ rest.takeWhile fun c => c ≠ '?' && c ≠ '#', c ≠ '?' ∧ c ≠ '#' := by
      intro c hc
      simpa using List.mem_takeWhile_imp hc
    have htail : EndsPath (rest.dropWhile fun c => c ≠ '?' && c ≠ '#') := by
      intro c hc
      have hmark := List.head?_dropWhile_not (fun c => c ≠ '?' && c ≠ '#') rest
      rw [Option.mem_def.1 hc] at hmark
      simpa [imp_iff_not_or] using hmark
    have hnames : (segments.map String.toList).map String.ofList = segments := by simp
    have hsegments := hasSegments_pieces hplain
    rw [← parts, hparts, hnames] at hsegments
    refine ⟨before, _, _, ?_, hsegments, htail⟩
    rw [List.takeWhile_append_dropWhile]
    exact splitAtFirst?_eq_some_iff.1 hsplit

/-- an address leads to one list of segments at most -/
theorem Leads.unique {url : String} {segments segments' : List String} (h : Leads url segments)
    (h' : Leads url segments') : segments = segments' := by
  obtain ⟨before, rest, hsplit, hparts⟩ := leads_iff.1 h
  obtain ⟨before', rest', hsplit', hparts'⟩ := leads_iff.1 h'
  rw [hsplit] at hsplit'
  cases hsplit'
  have hinj : Function.Injective String.toList := fun _ _ => String.toList_inj.1
  exact hinj.list_map (hparts.symm.trans hparts')

theorem Leads.isName {url : String} {segments : List String} (h : Leads url segments) : ∀ s ∈ segments, IsName s := by
  obtain ⟨_, _, _, _, hsegments, _⟩ := h
  exact hsegments.isName

/-! ## What segments locate -/

/-- a name is left when `.git` is taken off the end of a segment, however often it stands there -/
inductive Stripped : String → String → Prop where
  | done {name : String} : ¬ ".git".toList <:+ name.toList → Stripped name name
  | dotGit {s name : String} : Stripped s name → Stripped (s ++ ".git") name

theorem dropDotGit_append (cs : List Char) : dropDotGit (cs ++ ".git".toList) = dropDotGit cs := by
  have hreverse : (cs ++ ".git".toList).reverse = 't' :: 'i' :: 'g' :: '.' :: cs.reverse := by simp
  rw [dropDotGit, hreverse, dropTigDot, dropDotGit]

theorem stripped_dropTigDot (cs : List Char) :
    Stripped (String.ofList cs.reverse) (String.ofList (dropTigDot cs).reverse) := by
  fun_induction dropTigDot cs with
  | case1 cs ih =>
    have hend : String.ofList ('t' :: 'i' :: 'g' :: '.' :: cs).reverse = String.ofList cs.reverse ++ ".git" := by
      rw [← String.toList_inj]
      simp
    rw [hend]
    exact .dotGit ih
  | case2 cs h =>
    apply Stripped.done
    rw [String.toList_ofList]
    rintro ⟨start, hstart⟩
    apply h start.reverse
    have hreverse := congrArg List.reverse hstart
    simpa using hreverse.symm

theorem stripped_iff {s name : String} : Stripped s name ↔ name = String.ofList (dropDotGit s.toList) := by
  constructor
  · intro h
    induction h with
    | @done name h =>
      have hkept : dropTigDot name.toList.reverse = name.toList.reverse := by
        unfold dropTigDot
        split
        · rename_i cs hcs
          refine absurd ⟨cs.reverse, ?_⟩ h
          rw [← List.reverse_reverse name.toList, hcs]
          simp
        · rfl
      rw [dropDotGit, hkept, List.reverse_reverse, String.ofList_toList]
    | dotGit _ ih => rw [String.toList_append, dropDotGit_append, ih]
  · rintro rfl
    have hstripped := stripped_dropTigDot s.toList.reverse
    rwa [List.reverse_reverse, String.ofList_toList] at hstripped

/-- segments locate a place: the owner, the name without `.git`, and behind `tree` a ref and the segments of a directory
below the root; without a ref the place is the root, whatever follows the name -/
inductive Locates : List String → RepoLocation → Prop where
  | root {owner repo name : String} {rest : List String} :
    Stripped repo name → (∀ ref sub, rest ≠ "tree" :: ref :: sub) → Locates (owner :: repo :: rest) ⟨owner, name, none, none⟩
  | ref {owner repo name ref : String} :
    Stripped repo name → Locates [owner, repo, "tree", ref] ⟨owner, name, some ref, none⟩
  | directory {owner repo name ref : String} {sub : List String} :
    Stripped repo name → sub ≠ [] →
      Locates (owner :: repo :: "tree" :: ref :: sub) ⟨owner, name, some ref, some (join "/" sub)⟩

/-- two segments always locate a place, whatever follows them -/
theorem exists_locates (owner repo : String) (rest : List String) : ∃ l, Locates (owner :: repo :: rest) l := by
  have hname : Stripped repo (String.ofList (dropDotGit repo.toList)) := stripped_iff.2 rfl
  by_cases htree : ∃ ref sub, rest = "tree" :: ref :: sub
  · obtain ⟨ref, sub, rfl⟩ := htree
    by_cases hsub : sub = []
    · subst hsub
      exact ⟨_, .ref hname⟩
    · exact ⟨_, .directory hname hsub⟩
  · exact ⟨_, .root hname fun ref sub hrest => htree ⟨ref, sub, hrest⟩⟩

theorem ofParts?_of_locates {segments : List String} {l : RepoLocation} (h : Locates segments l) :
    ofParts? (segments.map String.toList) = some l := by
  cases h with
  | @root owner repo name rest hname hrest =>
    obtain rfl := stripped_iff.1 hname
    match rest with
    | [] => simp [ofParts?]
    | [mark] => simp [ofParts?]
    | mark :: ref :: sub =>
      have hmark : mark.toList ≠ "tree".toList := fun heq => hrest ref sub (by rw [String.toList_inj.1 heq])
      simp only [List.map_cons, ofParts?, if_neg hmark]
      simp
  | ref hname =>
    obtain rfl := stripped_iff.1 hname
    simp [ofParts?]
  | directory hname hsub =>
    obtain rfl := stripped_iff.1 hname
    simp [ofParts?, hsub, join]

theorem ofParts?_eq_some_iff {segments : List String} {l : RepoLocation} :
    ofParts? (segments.map String.toList) = some l ↔ Locates segments l := by
  refine ⟨fun h => ?_, ofParts?_of_locates⟩
  match segments with
  | [] => cases h
  | [_] => cases h
  | owner :: repo :: rest =>
    obtain ⟨l', hl'⟩ := exists_locates owner repo rest
    rw [ofParts?_of_locates hl'] at h
    cases h
    exact hl'

theorem parse?_eq_some_iff {url : String} {l : RepoLocation} :
    parse? url = some l ↔ ∃ segments, Leads url segments ∧ Locates segments l := by
  rw [parse?, Option.bind_eq_bind, Option.bind_eq_some_iff]
  constructor
  · rintro ⟨⟨before, rest⟩, hsplit, h⟩
    obtain ⟨segments, hparts⟩ : ∃ segments : List String, parts rest = segments.map String.toList :=
      ⟨(parts rest).map String.ofList, by simp⟩
    dsimp only at h
    rw [hparts] at h
    exact ⟨segments, leads_iff.2 ⟨before, rest, hsplit, hparts⟩, ofParts?_eq_some_iff.1 h⟩
  · rintro ⟨segments, hleads, hl⟩
    obtain ⟨before, rest, hsplit, hparts⟩ := leads_iff.1 hleads
    refine ⟨(before, rest), hsplit, ?_⟩
    dsimp only
    rw [hparts]
    exact ofParts?_of_locates hl

/-- **An address is read as a place when it leads to segments that locate it** -/
theorem parse_eq_ok_iff {url : String} {l : RepoLocation} :
    parse url = .ok l ↔ ∃ segments, Leads url segments ∧ Locates segments l := by
  rw [← parse?_eq_some_iff, parse]
  cases parse? url <;> simp

/-- what is said of an address that names no repository -/
def refusal (url : String) : Failure := .invalidInput ("Expected https://github.com/<owner>/<repo>, got " ++ url)

theorem refusal_of_parse {url : String} {f : Failure} (h : parse url = .error f) : f = refusal url := by
  rw [parse] at h
  cases hplace : parse? url with
  | some l =>
    rw [hplace] at h
    cases h
  | none =>
    rw [hplace] at h
    cases h
    rfl

/-- **An address is refused when it does not lead to two segments** -/
theorem parse_eq_error_iff {url : String} :
    parse url = .error (refusal url) ↔ ∀ owner repo rest, ¬ Leads url (owner :: repo :: rest) := by
  have hnone : parse url = .error (refusal url) ↔ parse? url = none := by
    rw [parse]
    cases parse? url <;> simp [refusal]
  rw [hnone, Option.eq_none_iff_forall_ne_some]
  constructor
  · intro h owner repo rest hleads
    obtain ⟨l, hl⟩ := exists_locates owner repo rest
    exact h l (parse?_eq_some_iff.2 ⟨_, hleads, hl⟩)
  · intro h l hl
    obtain ⟨segments, hleads, hlocates⟩ := parse?_eq_some_iff.1 hl
    cases hlocates with
    | root => exact h _ _ _ hleads
    | ref => exact h _ _ _ hleads
    | directory => exact h _ _ _ hleads

end RepoLocation

end ImportHarvest

import ImportHarvest.Proofs.Counts
import ImportHarvest.Proofs.RemoteWalk
/-!
The requests of a run over a repository.

`FetchesEntries` says what a run asks for, by recursion on the tree of listings: a directory is listed when it is reached,
and everything below it is asked for before its next sibling is; a file is downloaded when the filter wants it; nothing is
asked for because of any other entry; and a request that fails is the last. The walk lists directories between the
downloads of the run, from a stack of half-used listings. A step of the run asks for what comes first and leaves the rest
to the others (`fetches_step`), so a run asks for all of it in order, and for nothing else (`requests_in_tree_order`).
-/

namespace ImportHarvest

open Text

/-! ## Requests and their answers -/

/-- the service answers the request with a failure -/
def ContentsApi.Refuses (api : ContentsApi) : Request → Failure → Prop
  | .list url, f => api.list url = .error f
  | .download url, f => api.download url = .error f

/-- the service answers the request with what is asked for -/
def ContentsApi.Grants (api : ContentsApi) : Request → Prop
  | .list url => ∃ entries, api.list url = .ok entries
  | .download url => ∃ content, api.download url = .ok content

/-- what a run asks for last, when it ends so: a request that the service refuses, or nothing more -/
def ContentsApi.EndsOn (api : ContentsApi) (ending : Ending) (last : List Request) : Prop :=
  match ending.failure? with
  | none => last = []
  | some f => ∃ request, last = [request] ∧ api.Refuses request f

/-- what is asked for because of a record -/
def requestsFor (filter : Filter) (r : Record) : List Request :=
  match r.content with
  | .url url => if r.isDir then [.list url] else if filter.wants r then [.download url] else []
  | _ => []

namespace RemoteTree

section

variable {filter : Filter} {rootPath : Option String} {e : Entry} {url : String}

theorem requestsFor_directory : requestsFor filter (directoryRecord rootPath e) = [.list e.url] := rfl

theorem requestsFor_of_wanted (h : filter.wants (fileRecord rootPath e url) = true) :
    requestsFor filter (fileRecord rootPath e url) = [.download url] := by
  simp only [requestsFor, h, if_true]
  rfl

theorem requestsFor_of_not_wanted (h : filter.wants (fileRecord rootPath e url) = false) :
    requestsFor filter (fileRecord rootPath e url) = [] := by
  simp only [requestsFor, h]
  rfl

end

/-! ## What a run asks for -/

/-- what a run over entries sees, what it asks for, and how it ends -/
inductive FetchesEntries (api : ContentsApi) (filter : Filter) (rootPath : Option String) :
    List Entry → List Sight → List Request → Ending → Prop where
  | nil : FetchesEntries api filter rootPath [] [] [] .finished
  | passed {e : Entry} {rest : List Entry} {seen : List Sight} {asked : List Request} {ending : Ending} :
      e.kind ≠ "dir" → (e.kind = "file" → e.downloadUrl = none) →
      FetchesEntries api filter rootPath rest seen asked ending →
      FetchesEntries api filter rootPath (e :: rest) seen asked ending
  | unwanted {e : Entry} {url : String} {rest : List Entry} {seen : List Sight} {asked : List Request}
      {ending : Ending} :
      e.kind = "file" → e.downloadUrl = some url → filter.wants (fileRecord rootPath e url) = false →
      FetchesEntries api filter rootPath rest seen asked ending →
      FetchesEntries api filter rootPath (e :: rest) ((fileRecord rootPath e url, []) :: seen) asked ending
  | downloaded {e : Entry} {url : String} {content : Octets} {rest : List Entry} {seen : List Sight}
      {asked : List Request} {ending : Ending} :
      e.kind = "file" → e.downloadUrl = some url → filter.wants (fileRecord rootPath e url) = true →
      api.download url = .ok content → FetchesEntries api filter rootPath rest seen asked ending →
      FetchesEntries api filter rootPath (e :: rest) ((fileRecord rootPath e url, content) :: seen)
        (.download url :: asked) ending
  | refused {e : Entry} {url : String} {f : Failure} {rest : List Entry} :
      e.kind = "file" → e.downloadUrl = some url → filter.wants (fileRecord rootPath e url) = true →
      api.download url = .error f →
      FetchesEntries api filter rootPath (e :: rest) [] [.download url] (.readFailed (fileRecord rootPath e url) f)
  | directory {e : Entry} {children rest : List Entry} {below after : List Sight} {asked more : List Request}
      {ending : Ending} :
      e.kind = "dir" → api.list e.url = .ok children →
      FetchesEntries api filter rootPath children below asked .finished →
      FetchesEntries api filter rootPath rest after more ending →
      FetchesEntries api filter rootPath (e :: rest) ((directoryRecord rootPath e, []) :: (below ++ after))
        (.list e.url :: (asked ++ more)) ending
  | broken {e : Entry} {children rest : List Entry} {below : List Sight} {asked : List Request} {ending : Ending} :
      e.kind = "dir" → api.list e.url = .ok children → ending ≠ .finished →
      FetchesEntries api filter rootPath children below asked ending →
      FetchesEntries api filter rootPath (e :: rest) ((directoryRecord rootPath e, []) :: below)
        (.list e.url :: asked) ending
  | unlisted {e : Entry} {rest : List Entry} {f : Failure} :
      e.kind = "dir" → api.list e.url = .error f →
      FetchesEntries api filter rootPath (e :: rest) [] [.list e.url] (.walkFailed f)

/-- what a run over a whole tree sees, what it asks for, and how it ends -/
inductive Fetches (t : RemoteTree) (filter : Filter) : List Sight → List Request → Ending → Prop where
  | listed {entries : List Entry} {seen : List Sight} {asked : List Request} {ending : Ending} :
      t.api.list t.rootUrl = .ok entries →
      FetchesEntries t.api filter (entries.head?.map fun e => parentPath e.path) entries seen asked ending →
      Fetches t filter seen (.list t.rootUrl :: asked) ending
  | unlisted {f : Failure} : t.api.list t.rootUrl = .error f → Fetches t filter [] [.list t.rootUrl] (.walkFailed f)

namespace FetchesEntries

variable {api : ContentsApi} {filter : Filter} {rootPath : Option String} {a b : List Entry} {e : Entry}
  {rest : List Entry} {seen after : List Sight} {asked more : List Request} {ending : Ending}

/-- entries after others are asked for after the others -/
theorem append (ha : FetchesEntries api filter rootPath a seen asked .finished)
    (hb : FetchesEntries api filter rootPath b after more ending) :
    FetchesEntries api filter rootPath (a ++ b) (seen ++ after) (asked ++ more) ending := by
  generalize hf : Ending.finished = first at ha
  induction ha with
  | nil => exact hb
  | passed hd hn _ ih => exact .passed hd hn (ih hf)
  | unwanted hk hu hw _ ih => exact .unwanted hk hu hw (ih hf)
  | downloaded hk hu hw hc _ ih => exact .downloaded hk hu hw hc (ih hf)
  | refused => cases hf
  | directory hk hl hc _ _ ih =>
    rw [List.cons_append, List.cons_append, List.cons_append, List.append_assoc, List.append_assoc]
    exact .directory hk hl hc (ih hf)
  | broken _ _ hne => exact absurd hf.symm hne
  | unlisted => cases hf

/-- entries after a failure are not asked for -/
theorem append_of_failed (ha : FetchesEntries api filter rootPath a seen asked ending) (hne : ending ≠ .finished)
    (b : List Entry) : FetchesEntries api filter rootPath (a ++ b) seen asked ending := by
  induction ha with
  | nil => exact absurd rfl hne
  | passed hd hn _ ih => exact .passed hd hn (ih hne)
  | unwanted hk hu hw _ ih => exact .unwanted hk hu hw (ih hne)
  | downloaded hk hu hw hc _ ih => exact .downloaded hk hu hw hc (ih hne)
  | refused hk hu hw hc => exact .refused hk hu hw hc
  | directory hk hl hc _ _ ih => exact .directory hk hl hc (ih hne)
  | broken hk hl hf hc => exact .broken hk hl hf hc
  | unlisted hk hl => exact .unlisted hk hl

/-- nothing is asked for with entries without a record -/
theorem of_passed (hp : ∀ p ∈ a, ¬ HasRecord p) (h : FetchesEntries api filter rootPath (a ++ b) seen asked ending) :
    FetchesEntries api filter rootPath b seen asked ending := by
  induction a with
  | nil => exact h
  | cons e a ih =>
    obtain ⟨he, ha⟩ := List.forall_mem_cons.1 hp
    apply ih ha
    cases h with
    | passed _ _ hr => exact hr
    | unwanted hk hu => exact absurd (.inr ⟨hk, _, hu⟩) he
    | downloaded hk hu => exact absurd (.inr ⟨hk, _, hu⟩) he
    | refused hk hu => exact absurd (.inr ⟨hk, _, hu⟩) he
    | directory hk => exact absurd (.inl hk) he
    | broken hk => exact absurd (.inl hk) he
    | unlisted hk => exact absurd (.inl hk) he

/-- a directory with what comes after it is its listing, then the listed entries with what comes after them -/
theorem of_directory (h : FetchesEntries api filter rootPath (e :: rest) seen asked ending) (hk : e.kind = "dir") :
    (∃ f, api.list e.url = .error f ∧ seen = [] ∧ asked = [.list e.url] ∧ ending = .walkFailed f) ∨
      ∃ children seen' asked', api.list e.url = .ok children ∧ seen = (directoryRecord rootPath e, []) :: seen' ∧
        asked = .list e.url :: asked' ∧ FetchesEntries api filter rootPath (children ++ rest) seen' asked' ending := by
  have hf : e.kind ≠ "file" := by rw [hk]; decide
  cases h with
  | passed hd => exact absurd hk hd
  | unwanted hk' => exact absurd hk' hf
  | downloaded hk' => exact absurd hk' hf
  | refused hk' => exact absurd hk' hf
  | directory _ hl hc hr => exact .inr ⟨_, _, _, hl, rfl, rfl, hc.append hr⟩
  | broken _ hl hne hc => exact .inr ⟨_, _, _, hl, rfl, rfl, hc.append_of_failed hne rest⟩
  | unlisted _ hl => exact .inl ⟨_, hl, rfl, rfl, rfl⟩

/-- a file is passed over, or it is downloaded, or its download fails -/
theorem of_file {url : String} (h : FetchesEntries api filter rootPath (e :: rest) seen asked ending)
    (hk : e.kind = "file") (hu : e.downloadUrl = some url) :
    (filter.wants (fileRecord rootPath e url) = false ∧ ∃ seen', seen = (fileRecord rootPath e url, []) :: seen' ∧
        FetchesEntries api filter rootPath rest seen' asked ending) ∨
      filter.wants (fileRecord rootPath e url) = true ∧
        ((∃ content seen' asked', api.download url = .ok content ∧
            seen = (fileRecord rootPath e url, content) :: seen' ∧ asked = .download url :: asked' ∧
            FetchesEntries api filter rootPath rest seen' asked' ending) ∨
          ∃ f, api.download url = .error f ∧ seen = [] ∧ asked = [.download url] ∧
            ending = .readFailed (fileRecord rootPath e url) f) := by
  have hd : e.kind ≠ "dir" := by rw [hk]; decide
  cases h with
  | passed _ hn => cases hu.symm.trans (hn hk)
  | unwanted _ hu' hw hr => cases hu.symm.trans hu'; exact .inl ⟨hw, _, rfl, hr⟩
  | downloaded _ hu' hw hc hr => cases hu.symm.trans hu'; exact .inr ⟨hw, .inl ⟨_, _, _, hc, rfl, rfl, hr⟩⟩
  | refused _ hu' hw hc => cases hu.symm.trans hu'; exact .inr ⟨hw, .inr ⟨_, hc, rfl, rfl, rfl⟩⟩
  | directory hk' => exact absurd hk' hd
  | broken hk' => exact absurd hk' hd
  | unlisted hk' => exact absurd hk' hd

/-- what is asked for is what the records seen ask for, all of it granted, and then a request that is refused if the run
fails -/
theorem asked_eq (h : FetchesEntries api filter rootPath a seen asked ending) :
    ∃ last, asked = (seen.map Prod.fst).flatMap (requestsFor filter) ++ last ∧ api.EndsOn ending last ∧
      ∀ request ∈ (seen.map Prod.fst).flatMap (requestsFor filter), api.Grants request := by
  induction h with
  | nil => exact ⟨[], rfl, rfl, by simp⟩
  | passed _ _ _ ih => exact ih
  | unwanted _ _ hw _ ih =>
    rw [List.map_cons, List.flatMap_cons, requestsFor_of_not_wanted hw, List.nil_append]
    exact ih
  | downloaded _ _ hw hc _ ih =>
    obtain ⟨last, rfl, hl, hg⟩ := ih
    rw [List.map_cons, List.flatMap_cons, requestsFor_of_wanted hw]
    refine ⟨last, rfl, hl, List.forall_mem_cons.2 ⟨⟨_, hc⟩, hg⟩⟩
  | refused _ _ _ hc => exact ⟨_, rfl, ⟨_, rfl, hc⟩, by simp⟩
  | directory _ hl _ _ ihc ihr =>
    obtain ⟨_, rfl, rfl, hgc⟩ := ihc
    obtain ⟨last, rfl, hlast, hgr⟩ := ihr
    rw [List.map_cons, List.flatMap_cons, requestsFor_directory, List.map_append, List.flatMap_append]
    refine ⟨last, by simp, hlast, ?_⟩
    rw [List.singleton_append, List.forall_mem_cons, List.forall_mem_append]
    exact ⟨⟨_, hl⟩, hgc, hgr⟩
  | broken _ hl _ _ ih =>
    obtain ⟨last, rfl, hlast, hg⟩ := ih
    rw [List.map_cons, List.flatMap_cons, requestsFor_directory]
    exact ⟨last, rfl, hlast, List.forall_mem_cons.2 ⟨⟨_, hl⟩, hg⟩⟩
  | unlisted _ hl => exact ⟨_, rfl, ⟨_, rfl, hl⟩, by simp⟩

/-- when the run goes through, there is one request for each directory and one for each file that is taken up -/
theorem length_asked (h : FetchesEntries api filter rootPath a seen asked ending) (hf : ending = .finished) :
    asked.length = countOf filter .directory seen + (wanted filter seen).length := by
  have hfile : ∀ (e : Entry) (url : String) (content : Octets),
      fateOf filter (fileRecord rootPath e url, content) ≠ .directory := by simp [fateOf_eq_directory, fileRecord]
  have hdir : ∀ e : Entry, fateOf filter (directoryRecord rootPath e, []) = .directory := fun _ => rfl
  have hwants : ∀ e : Entry, filter.wants (directoryRecord rootPath e) = false := fun _ => rfl
  unfold countOf wanted at *
  induction h with
  | nil => rfl
  | passed _ _ _ ih => exact ih hf
  | unwanted _ _ hw _ ih => simp [ih hf, hfile, hw]
  | downloaded _ _ hw _ _ ih => simp [ih hf, hfile, hw]; omega
  | refused => cases hf
  | directory _ _ _ _ ihc ihr => simp [ihc rfl, ihr hf, hdir, hwants]; omega
  | broken _ _ hne => exact absurd hf hne
  | unlisted => cases hf

/-- entries that expand to finitely many records are asked for; the records seen are the first of them, and all of them
when the run goes through -/
theorem of_expands {entries : List Entry} {records : List Record} {failure : Option Failure}
    (h : ExpandsEntries api rootPath entries records failure) (filter : Filter) :
    ∃ seen asked ending, FetchesEntries api filter rootPath entries seen asked ending ∧
      seen.map Prod.fst <+: records ∧ (ending = .finished → seen.map Prod.fst = records ∧ failure = none) := by
  induction h with
  | nil => exact ⟨[], [], _, .nil, List.prefix_rfl, fun _ => ⟨rfl, rfl⟩⟩
  | @file e url rest records failure hk hu _ ih =>
    obtain ⟨seen, asked, ending, hf, hp, hd⟩ := ih
    cases hw : filter.wants (fileRecord rootPath e url) with
    | false =>
      refine ⟨_, _, _, .unwanted hk hu hw hf, List.cons_prefix_cons.2 ⟨rfl, hp⟩, fun he => ?_⟩
      exact ⟨congrArg _ (hd he).1, (hd he).2⟩
    | true =>
      cases hc : api.download url with
      | error f => exact ⟨_, _, _, .refused hk hu hw hc, List.nil_prefix, fun he => by cases he⟩
      | ok content =>
        refine ⟨_, _, _, .downloaded hk hu hw hc hf, List.cons_prefix_cons.2 ⟨rfl, hp⟩, fun he => ?_⟩
        exact ⟨congrArg _ (hd he).1, (hd he).2⟩
  | passed hk hn _ ih =>
    obtain ⟨seen, asked, ending, hf, hp, hd⟩ := ih
    exact ⟨seen, asked, ending, .passed hk hn hf, hp, hd⟩
  | @directory e children rest below after failure hk hl _ _ ihc ihr =>
    obtain ⟨seen, asked, ending, hf, hp, hd⟩ := ihc
    by_cases he : ending = .finished
    · subst he
      obtain ⟨seen', asked', ending', hf', hp', hd'⟩ := ihr
      obtain ⟨rfl, -⟩ := hd rfl
      refine ⟨_, _, _, .directory hk hl hf hf', ?_, fun he => ?_⟩
      · rw [List.map_cons, List.map_append]
        exact List.cons_prefix_cons.2 ⟨rfl, (List.prefix_append_right_inj _).2 hp'⟩
      · rw [List.map_cons, List.map_append, (hd' he).1]
        exact ⟨rfl, (hd' he).2⟩
    · refine ⟨_, _, _, .broken hk hl he hf, ?_, fun hfin => absurd hfin he⟩
      exact List.cons_prefix_cons.2 ⟨rfl, hp.trans (List.prefix_append _ _)⟩
  | broken hk hl _ ih =>
    obtain ⟨seen, asked, ending, hf, hp, hd⟩ := ih
    -- a run below that goes through would mean that the expansion does not fail there
    have hne : ending ≠ .finished := fun he => by cases (hd he).2
    exact ⟨_, _, _, .broken hk hl hne hf, List.cons_prefix_cons.2 ⟨rfl, hp⟩, fun he => absurd he hne⟩
  | unlisted hk hl => exact ⟨_, _, _, .unlisted hk hl, List.nil_prefix, fun he => by cases he⟩

end FetchesEntries

/-! ## A first step that asks for more -/

section

variable {τ : Type} {source : TreeSource τ} {filter : Filter} {c₀ c c₁ c₂ : source.Cursor} {w w₁ w₂ : World τ}
  {now : List Request} {seen : List Sight} {ending : Ending}

theorem request_request (w : World τ) (now later : List Request) :
    (w.request now).request later = w.request (now ++ later) := by
  simp only [World.request, List.append_assoc]

/-- the next step from a cursor asks for something, and goes on as the next step from another -/
def AsksFirst (source : TreeSource τ) (now : List Request) (c₀ c : source.Cursor) (w : World τ) : Prop :=
  ∀ item c' asked, source.next c (w.request now) = (item, c', asked) → source.next c₀ w = (item, c', now ++ asked)

theorem AsksFirst.ends (hn : AsksFirst source now c₀ c w) (h : Ends source filter c (w.request now) ending c₁ w₁) :
    Ends source filter c₀ w ending c₁ w₁ := by
  cases h with
  | finished h =>
    rw [request_request]
    exact .finished (hn _ _ _ h)
  | walkFailed h =>
    rw [request_request]
    exact .walkFailed (hn _ _ _ h)
  | readFailed h hw hr =>
    rw [request_request] at hr ⊢
    exact .readFailed (hn _ _ _ h) hw hr

variable [Sink τ]

theorem AsksFirst.gives {s : Sight} (hn : AsksFirst source now c₀ c w)
    (h : Gives source filter c (w.request now) s c₁ w₁) : Gives source filter c₀ w s c₁ w₁ := by
  cases h with
  | passed h hw =>
    rw [request_request]
    exact .passed (hn _ _ _ h) hw
  | read h hw hr =>
    rw [request_request] at hr ⊢
    exact .read (hn _ _ _ h) hw hr

/-- a walk whose first step goes on as another's, and asks for something before, is the other one -/
theorem AsksFirst.walk (hn : AsksFirst source now c₀ c w) (hg : GivesAll source filter c (w.request now) seen c₁ w₁)
    (he : Ends source filter c₁ w₁ ending c₂ w₂) :
    ∃ c₁ w₁, GivesAll source filter c₀ w seen c₁ w₁ ∧ Ends source filter c₁ w₁ ending c₂ w₂ := by
  cases hg with
  | nil => exact ⟨_, _, .nil, hn.ends he⟩
  | cons hg hgs => exact ⟨_, _, .cons (hn.gives hg) hgs, he⟩

end

/-! ## What a run asks for, step by step -/

section

variable {t : RemoteTree} {τ : Type} {filter : Filter} {seen : List Sight} {asked : List Request} {ending : Ending}

theorem source_read {rootPath : Option String} {e : Entry} {url : String} {answer : Except Failure Octets}
    (h : t.api.download url = answer) (c : Cursor) (w : World τ) :
    (t.source (τ := τ)).read (fileRecord rootPath e url) c w = (answer, c, [.download url]) := by
  rw [← h]
  rfl

variable [Sink τ]

/-- a step asks for what comes first, and leaves the rest to the others -/
theorem fetches_step {c : Cursor} (hu : c.unlisted = none)
    (h : FetchesEntries t.api filter c.rootPath c.stack.flatten seen asked ending) (w : World τ) :
    (seen = [] ∧ ∃ c₁ w₁, Ends t.source filter c w ending c₁ w₁ ∧ w₁.requests = w.requests ++ asked) ∨
      ∃ (s : Sight) (seen' : List Sight) (now later : List Request) (c₁ : Cursor) (w₁ : World τ),
        seen = s :: seen' ∧ asked = now ++ later ∧ Gives t.source filter c w s c₁ w₁ ∧
          w₁.requests = w.requests ++ now ∧ c₁.unlisted = none ∧
          FetchesEntries t.api filter c₁.rootPath c₁.stack.flatten seen' later ending := by
  have hs := step_next t.api hu
  rcases hnext : next t.api c with ⟨item, c', now⟩
  rw [hnext] at hs
  cases hs with
  | finished hp =>
    rw [← List.append_nil c.stack.flatten] at h
    cases h.of_passed hp
    exact .inl ⟨rfl, _, _, .finished hnext, rfl⟩
  | unlisted hsplit hp hk hl =>
    rw [hsplit] at h
    rcases (h.of_passed hp).of_directory hk with ⟨f, hl', rfl, rfl, rfl⟩ | ⟨children', seen', asked', hl', -⟩
    · cases hl.symm.trans hl'
      exact .inl ⟨rfl, _, _, .walkFailed hnext, rfl⟩
    · cases hl.symm.trans hl'
  | @directory passed children e rest hsplit hp hk hl =>
    rw [hsplit] at h
    rcases (h.of_passed hp).of_directory hk with ⟨f, hl', -⟩ | ⟨children', seen', asked', hl', rfl, rfl, hr⟩
    · cases hl.symm.trans hl'
    · cases hl.symm.trans hl'
      exact .inr ⟨_, seen', [.list e.url], asked', _, _, rfl, rfl, .passed hnext rfl, rfl, hu, hr⟩
  | @file passed e url rest hsplit hp hk hd =>
    rw [hsplit] at h
    rcases (h.of_passed hp).of_file hk hd with ⟨hw, seen', rfl, hr⟩ | ⟨hw, ⟨content, seen', asked', hc, rfl, rfl, hr⟩ | hx⟩
    · exact .inr ⟨_, seen', [], asked, _, _, rfl, rfl, .passed hnext hw, rfl, hu, hr⟩
    · refine .inr ⟨_, seen', [.download url], asked', _, _, rfl, rfl, .read hnext hw (source_read hc _ _), ?_, hu, hr⟩
      simp [World.withBlock, World.request, World.process]
    · obtain ⟨f, hc, rfl, rfl, rfl⟩ := hx
      refine .inl ⟨rfl, _, _, .readFailed hnext hw (source_read hc _ _), ?_⟩
      simp [World.request, World.process]

/-- once the root is listed, a walk asks for all of it in order -/
theorem walk_of_fetchesEntries {c : Cursor} (hu : c.unlisted = none)
    (h : FetchesEntries t.api filter c.rootPath c.stack.flatten seen asked ending) (w : World τ) :
    ∃ c₁ w₁ c₂ w₂, GivesAll t.source filter c w seen c₁ w₁ ∧ Ends t.source filter c₁ w₁ ending c₂ w₂ ∧
      w₂.requests = w.requests ++ asked := by
  induction seen generalizing c w asked with
  | nil =>
    rcases fetches_step hu h w with ⟨-, c₁, w₁, he, hr⟩ | ⟨s, seen', _, _, _, _, hs, -⟩
    · exact ⟨_, _, _, _, .nil, he, hr⟩
    · cases hs
  | cons s seen ih =>
    rcases fetches_step hu h w with ⟨hs, -⟩ | ⟨s', seen', now, later, c₁, w₁, hs, rfl, hg, hr, hu₁, h₁⟩
    · cases hs
    · cases hs
      obtain ⟨c₂, w₂, c₃, w₃, hgs, he, hr'⟩ := ih hu₁ h₁ w₁
      exact ⟨c₂, w₂, c₃, w₃, .cons hg hgs, he, by rw [hr', hr, List.append_assoc]⟩

/-- a walk asks for all of its tree in order -/
theorem walk_of_fetches (h : t.Fetches filter seen asked ending) (w : World τ) :
    ∃ c₁ w₁ c₂ w₂, GivesAll t.source filter t.start w seen c₁ w₁ ∧ Ends t.source filter c₁ w₁ ending c₂ w₂ ∧
      w₂.requests = w.requests ++ asked := by
  cases h with
  | @listed entries _ asked _ hl hx =>
    obtain ⟨c₁, w₁, c₂, w₂, hg, he, hr⟩ := walk_of_fetchesEntries (c := listedStart entries) rfl
      (by rw [listedStart, List.flatten_singleton]; exact hx) (w.request [.list t.rootUrl])
    have hr' : w₂.requests = w.requests ++ .list t.rootUrl :: asked := by
      rw [hr, World.request, List.append_assoc, List.singleton_append]
    have hn : AsksFirst t.source [.list t.rootUrl] t.start (listedStart entries) w := fun _ _ _ hn => next_start hl hn
    obtain ⟨c₁, w₁, hg, he⟩ := hn.walk hg he
    exact ⟨c₁, w₁, c₂, w₂, hg, he, hr'⟩
  | unlisted hl => exact ⟨_, _, _, _, .nil, .walkFailed (next_start_of_error hl), rfl⟩

end

/-! ## The requests of a whole run -/

namespace Fetches

variable {t : RemoteTree} {filter : Filter} {seen : List Sight} {asked : List Request} {ending : Ending}

/-- a tree that expands to finitely many records is asked for -/
theorem of_expands {records : List Record} {failure : Option Failure} (h : t.Expands records failure)
    (filter : Filter) :
    ∃ seen asked ending, t.Fetches filter seen asked ending ∧ seen.map Prod.fst <+: records ∧
      (ending = .finished → seen.map Prod.fst = records ∧ failure = none) := by
  cases h with
  | listed hl hx =>
    obtain ⟨seen, asked, ending, hf, hp, hd⟩ := FetchesEntries.of_expands hx filter
    exact ⟨seen, _, ending, .listed hl hf, hp, hd⟩
  | unlisted hl => exact ⟨[], _, _, .unlisted hl, List.prefix_rfl, fun he => by cases he⟩

/-- what is asked for first is granted, and is what the root and the records seen ask for -/
theorem asked_eq (h : t.Fetches filter seen asked ending) :
    ∃ before last, asked = before ++ last ∧
      before <+: .list t.rootUrl :: (seen.map Prod.fst).flatMap (requestsFor filter) ∧
      (ending = .finished → before = .list t.rootUrl :: (seen.map Prod.fst).flatMap (requestsFor filter)) ∧
      (∀ request ∈ before, t.api.Grants request) ∧ t.api.EndsOn ending last := by
  cases h with
  | listed hl hf =>
    obtain ⟨last, rfl, hlast, hg⟩ := hf.asked_eq
    exact ⟨_, last, rfl, List.prefix_rfl, fun _ => rfl, List.forall_mem_cons.2 ⟨⟨_, hl⟩, hg⟩, hlast⟩
  | unlisted hl =>
    exact ⟨[], _, rfl, List.nil_prefix, fun he => (by cases he), by simp, _, rfl, hl⟩

theorem length_asked (h : t.Fetches filter seen asked .finished) : asked.length =
    1 + (tally filter seen).directoriesSeen + (tally filter seen).filesIncluded +
      (tally filter seen).filesSkippedMalformed := by
  cases h with
  | listed hl hf =>
    have hlen := hf.length_asked rfl
    rw [wanted_eq_takenUp, List.length_map, length_takenUp] at hlen
    have hdirs : (tally filter seen).directoriesSeen = countOf filter .directory seen := rfl
    rw [List.length_cons, hlen, hdirs]
    omega

end Fetches

/-- **The requests of a run are its tree in order.** When the tree of listings is finite, a run into an output that takes
everything makes these requests and no others: the root's listing, then, in the pre-order of the tree, a listing for
each directory and a download for each file that the filter wants. All of them are granted when the run goes through,
and then they are one more than the directories and the files taken up. When it does not, the last request, and only the
last, is refused. -/
theorem requests_in_tree_order (t : RemoteTree) (filter : Filter) (records : List Record) (failure : Option Failure)
    (h : t.Expands records failure) :
    ∃ seen asked ending, t.Fetches filter seen asked ending ∧ seen.map Prod.fst <+: records ∧
      (match ending.failure? with
        | none => failure = none ∧ asked = .list t.rootUrl :: records.flatMap (requestsFor filter) ∧
            ∀ request ∈ asked, t.api.Grants request
        | some f => ∃ before last, asked = before ++ [last] ∧
            before <+: .list t.rootUrl :: records.flatMap (requestsFor filter) ∧
            (∀ request ∈ before, t.api.Grants request) ∧ t.api.Refuses last f) ∧
      ∀ (τ : Type) [Sink τ] (u : Sink.Taking τ) (w : World τ) (steps : Nat), u.accepts w.output →
        seen.length < steps →
        ∃ result after, aggregate steps t.source filter w = some (result, after) ∧ ending.Yields result ∧
          after.requests = w.requests ++ asked ∧
          ∀ stats, result = .ok stats →
            asked.length = 1 + stats.directoriesSeen + stats.filesIncluded + stats.filesSkippedMalformed := by
  obtain ⟨seen, asked, ending, hf, hp, hd⟩ := Fetches.of_expands h filter
  refine ⟨seen, asked, ending, hf, hp, ?_, ?_⟩
  · obtain ⟨before, last, rfl, hb, hall, hg, hl⟩ := hf.asked_eq
    unfold ContentsApi.EndsOn at hl
    cases he : ending.failure? with
    | none =>
      rw [he] at hl
      obtain rfl : ending = .finished := by cases ending <;> first | rfl | cases he
      obtain ⟨rfl, rfl⟩ := hd rfl
      obtain rfl : last = [] := hl
      rw [List.append_nil]
      exact ⟨rfl, hall rfl, hg⟩
    | some f =>
      rw [he] at hl
      obtain ⟨last, rfl, hr⟩ := hl
      refine ⟨before, last, rfl, hb.trans (List.cons_prefix_cons.2 ⟨rfl, ?_⟩), hg, hr⟩
      obtain ⟨more, rfl⟩ := hp
      rw [List.flatMap_append]
      exact List.prefix_append _ _
  · intro τ _ u w steps hu hs
    obtain ⟨c₁, w₁, c₂, w₂, hgs, he, hr⟩ := walk_of_fetches hf w
    obtain ⟨result, q, hrun, hy, -, hreq, -⟩ := Progress.run_of_walk (p := .start t.source w) u hgs he hu hs
    have ha : aggregate steps t.source filter w = some (result, q.world) := by rw [aggregate, hrun]
    refine ⟨result, q.world, ha, hy, hreq.trans hr, ?_⟩
    rintro stats rfl
    -- the walk that was counted is the one that was asked for
    have hasked : Walk t.source filter w seen ending := ⟨c₁, w₁, c₂, w₂, hgs, he⟩
    obtain ⟨seen', hcounted, rfl, -⟩ := tally_of_aggregate ha
    obtain ⟨rfl, rfl⟩ := hasked.unique hcounted
    exact hf.length_asked

/-! A directory with a file in it, a text, a submodule, and a file; each address is answered. -/

def shelfEntry : Entry := ⟨"dir", "shelf", "shelf", none, "shelf"⟩

def innerEntry : Entry := ⟨"file", "a.py", "shelf/a.py", some "raw a", "shelf/a.py"⟩

def noteEntry : Entry := ⟨"file", "note.txt", "note.txt", some "raw note", "note.txt"⟩

def outerEntry : Entry := ⟨"file", "z.py", "z.py", some "raw z", "z.py"⟩

def shelfTree : RemoteTree where
  rootUrl := "top"
  api :=
    { list := fun url =>
        if url = "top" then .ok [shelfEntry, noteEntry, ⟨"submodule", "dep", "dep", none, "dep"⟩, outerEntry]
        else if url = "shelf" then .ok [innerEntry]
        else .ok []
      download := fun _ => .ok [] }

theorem shelfTree_requests :
    ∃ stats after, aggregate 5 shelfTree.source pythonFilter { output := LimitedSink.unlimited } =
        some (.ok stats, after) ∧
      after.requests = [.list "top", .list "shelf", .download "raw a", .download "raw z"] ∧
      4 = 1 + stats.directoriesSeen + stats.filesIncluded + stats.filesSkippedMalformed := by
  have hx : shelfTree.Expands [directoryRecord (some "") shelfEntry, fileRecord (some "") innerEntry "raw a",
      fileRecord (some "") noteEntry "raw note", fileRecord (some "") outerEntry "raw z"] none :=
    .listed rfl (.directory rfl rfl (.file rfl rfl .nil)
      (.file rfl rfl (.passed (by decide) (by decide) (.file rfl rfl .nil))))
  obtain ⟨seen, asked, ending, -, hp, hasked, hrun⟩ := requests_in_tree_order shelfTree pythonFilter _ _ hx
  have hs : seen.length < 5 := by
    have := hp.length_le
    simp only [List.length_map, List.length_cons, List.length_nil] at this
    omega
  obtain ⟨result, after, ha, hy, hr, hcount⟩ := hrun _ LimitedSink.takesAll.toTaking { output := .unlimited } 5 ⟨rfl, rfl⟩ hs
  unfold Ending.Yields at hy
  cases hf : ending.failure? with
  | none =>
    rw [hf] at hasked hy
    obtain ⟨-, rfl, -⟩ := hasked
    obtain ⟨stats, rfl⟩ := hy
    exact ⟨stats, after, ha, hr, hcount stats rfl⟩
  | some f =>
    -- nothing is refused here
    rw [hf] at hasked
    obtain ⟨before, last, -, -, -, hrefused⟩ := hasked
    cases last with
    | list url =>
      have hl : ∃ entries, shelfTree.api.list url = .ok entries := by
        unfold shelfTree
        dsimp only
        split_ifs <;> exact ⟨_, rfl⟩
      obtain ⟨entries, hl⟩ := hl
      cases hl.symm.trans hrefused
    | download url => cases hrefused

end RemoteTree

end ImportHarvest

import ImportHarvest.Proofs.Requests
/-!
What a run over a repository makes use of.

A walk goes through entries that were listed for it (`Stocked`), and a run reads the files of their records; so what a
run has seen, wherever it stands, comes from requests that were granted (`Fetched`), and only its last request can have
been refused. A step keeps this (`uses_of_gives`), the end of a walk adds the request it fails on (`uses_of_ends`), and
both make up the run (`run_uses`), also when the tree of listings is endless.
-/

namespace ImportHarvest.RemoteTree

open Text

/-! ## Entries and records that were granted -/

/-- an entry of a listing that was asked for and granted -/
def Listed (api : ContentsApi) (requests : List Request) (e : Entry) : Prop :=
  ∃ url entries, .list url ∈ requests ∧ api.list url = .ok entries ∧ e ∈ entries

/-- what a walk has left to go through was all listed -/
def Stocked (api : ContentsApi) (requests : List Request) (c : Cursor) : Prop :=
  ∀ e ∈ c.stack.flatten, Listed api requests e

/-- a record of a listed entry, with the content that was downloaded for it when the filter wants it -/
structure Fetched (api : ContentsApi) (filter : Filter) (requests : List Request) (s : Sight) : Prop where
  listed : ∃ rootPath e, Listed api requests e ∧ s.1 = record rootPath e
  downloaded : filter.wants s.1 = true →
    ∃ url, s.1.content = .url url ∧ .download url ∈ requests ∧ api.download url = .ok s.2

section

variable {api : ContentsApi} {filter : Filter} {requests more asked : List Request} {c c₁ : Cursor}

theorem Listed.append {e : Entry} (h : Listed api requests e) (more : List Request) :
    Listed api (requests ++ more) e := by
  obtain ⟨url, entries, hm, hl, he⟩ := h
  exact ⟨url, entries, List.mem_append_left _ hm, hl, he⟩

theorem Stocked.append (h : Stocked api requests c) (more : List Request) : Stocked api (requests ++ more) c :=
  fun e he => (h e he).append more

theorem Fetched.append {s : Sight} (h : Fetched api filter requests s) (more : List Request) :
    Fetched api filter (requests ++ more) s where
  listed := by
    obtain ⟨rootPath, e, he, hr⟩ := h.listed
    exact ⟨rootPath, e, he.append more, hr⟩
  downloaded := by
    intro hw
    obtain ⟨url, hu, hm, hd⟩ := h.downloaded hw
    exact ⟨url, hu, List.mem_append_left _ hm, hd⟩

/-- what a call of a walk gives after these requests: a record of a listed entry, and all it asked for on the way was
granted, or the failure of the last listing it asked for -/
def CallUses (api : ContentsApi) (requests : List Request) : WalkItem × Cursor × List Request → Prop
  | (none, _, asked) => ∀ request ∈ asked, api.Grants request
  | (some (.error f), _, asked) =>
    ∃ before last, asked = before ++ [last] ∧ (∀ request ∈ before, api.Grants request) ∧ api.Refuses last f
  | (some (.ok r), c, asked) =>
    (∀ request ∈ asked, api.Grants request) ∧ Stocked api (requests ++ asked) c ∧
      ∃ rootPath e, Listed api (requests ++ asked) e ∧ r = record rootPath e

theorem Step.uses {item : WalkItem} (hs : Step api c item c₁ asked) (h : Stocked api requests c) :
    CallUses api requests (item, c₁, asked) := by
  cases hs with
  | finished => exact List.forall_mem_nil _
  | @file passed e url rest hsplit _ hk hd =>
    rw [Stocked, hsplit] at h
    obtain ⟨he, hrest⟩ := List.forall_mem_cons.1 (List.forall_mem_append.1 h).2
    refine ⟨List.forall_mem_nil _, fun e' he' => (hrest e' he').append _, c.rootPath, e, he.append _, ?_⟩
    exact (record_of_file hk hd).symm
  | @directory passed children e rest hsplit _ hk hl =>
    rw [Stocked, hsplit] at h
    obtain ⟨he, hrest⟩ := List.forall_mem_cons.1 (List.forall_mem_append.1 h).2
    refine ⟨List.forall_mem_singleton.2 ⟨children, hl⟩, ?_, c.rootPath, e, he.append _, (record_of_directory hk).symm⟩
    intro e' he'
    rcases List.mem_append.1 he' with hchild | hrest'
    · exact ⟨e.url, children, List.mem_append_right _ (List.mem_singleton.2 rfl), hl, hchild⟩
    · exact (hrest e' hrest').append _
  | @unlisted passed e f rest hsplit _ hk hl => exact ⟨[], .list e.url, rfl, List.forall_mem_nil _, hl⟩

/-- a call that lists the root first uses that listing too -/
theorem CallUses.cons {item : WalkItem} {url : String} {entries : List Entry} (hl : api.list url = .ok entries)
    (h : CallUses api (requests ++ [.list url]) (item, c, asked)) :
    CallUses api requests (item, c, .list url :: asked) := by
  have hg : api.Grants (.list url) := ⟨entries, hl⟩
  match item with
  | none => exact List.forall_mem_cons.2 ⟨hg, h⟩
  | some (.error f) =>
    obtain ⟨before, last, rfl, hb, hr⟩ := h
    exact ⟨.list url :: before, last, rfl, List.forall_mem_cons.2 ⟨hg, hb⟩, hr⟩
  | some (.ok r) =>
    have hassoc : requests ++ [.list url] ++ asked = requests ++ .list url :: asked := by simp
    obtain ⟨ha, hs, he⟩ := h
    rw [hassoc] at hs he
    exact ⟨List.forall_mem_cons.2 ⟨hg, ha⟩, hs, he⟩

theorem next_uses (h : Stocked api requests c) : CallUses api requests (next api c) := by
  have hcall := call_next api c
  rcases hnext : next api c with ⟨item, c', now⟩
  rw [hnext] at hcall
  cases hcall with
  | step _ hs => exact hs.uses h
  | @unlisted root _ _ hl => exact ⟨[], .list root, rfl, List.forall_mem_nil _, hl⟩
  | @root root entries _ _ _ _ hl hs =>
    refine CallUses.cons hl (hs.uses ?_)
    intro e he
    rw [listedStart, List.flatten_singleton] at he
    exact ⟨root, entries, List.mem_append_right _ (List.mem_singleton.2 rfl), hl, he⟩

end

section

variable {t : RemoteTree} {τ : Type} {filter : Filter} {c c₁ : (t.source (τ := τ)).Cursor} {w w₁ : World τ}
  {seen : List Sight} {ending : Ending}

theorem source_next_uses {answer : WalkItem × Cursor × List Request} (hn : (t.source (τ := τ)).next c w = answer)
    (hc : Stocked t.api w.requests c) : CallUses t.api w.requests answer := by
  rw [← hn]
  exact next_uses hc

/-- the content of a record is asked for at its address -/
theorem source_read_record {rootPath : Option String} {e : Entry} {answer : Except Failure Octets} {asked : List Request}
    (h : (t.source (τ := τ)).read (record rootPath e) c w = (answer, c₁, asked)) :
    c₁ = c ∧ ∃ url, (record rootPath e).content = .url url ∧ asked = [.download url] ∧ t.api.download url = answer := by
  cases h
  exact ⟨rfl, _, rfl, rfl, rfl⟩

/-- a walk that ends was granted all it asked for but the last request, when it fails -/
theorem uses_of_ends (h : Ends t.source filter c w ending c₁ w₁) (hc : Stocked t.api w.requests c) :
    ∃ asked last, w₁.requests = w.requests ++ asked ++ last ∧ (∀ request ∈ asked, t.api.Grants request) ∧
      t.api.EndsOn ending last := by
  cases h with
  | @finished _ asked hn =>
    exact ⟨asked, [], (List.append_nil _).symm, source_next_uses hn hc, rfl⟩
  | @walkFailed f _ asked hn =>
    obtain ⟨before, last, rfl, hb, hr⟩ := source_next_uses hn hc
    exact ⟨before, [last], (List.append_assoc _ _ _).symm, hb, last, rfl, hr⟩
  | @readFailed r f c₂ _ asked asked' hn hw hr =>
    obtain ⟨hg, -, rootPath, e, -, rfl⟩ := source_next_uses hn hc
    obtain ⟨-, url, -, rfl, hd⟩ := source_read_record hr
    exact ⟨asked, _, rfl, hg, _, rfl, hd⟩

variable [Sink τ]

/-- a record that is given is fetched, and all that was asked for on the way was granted -/
theorem uses_of_gives {s : Sight} (h : Gives t.source filter c w s c₁ w₁) (hc : Stocked t.api w.requests c) :
    ∃ asked, w₁.requests = w.requests ++ asked ∧ (∀ request ∈ asked, t.api.Grants request) ∧
      Stocked t.api w₁.requests c₁ ∧ Fetched t.api filter w₁.requests s := by
  cases h with
  | @passed r _ asked hn hw =>
    obtain ⟨hg, hs, hl⟩ := source_next_uses hn hc
    exact ⟨asked, rfl, hg, hs, hl, fun hw' => absurd hw' (Bool.eq_false_iff.1 hw)⟩
  | @read r c₂ _ asked asked' content hn hw hr =>
    obtain ⟨hg, hs, rootPath, e, hl, rfl⟩ := source_next_uses hn hc
    obtain ⟨rfl, url, hcontent, rfl, hd⟩ := source_read_record hr
    have hrequests : (World.withBlock filter (record rootPath e, content)
        (((w.request asked).process (record rootPath e)).request [.download url])).requests =
          w.requests ++ asked ++ [.download url] := rfl
    rw [hrequests]
    refine ⟨asked ++ [.download url], List.append_assoc _ _ _, ?_, hs.append _, ⟨rootPath, e, hl.append _, rfl⟩, ?_⟩
    · exact List.forall_mem_append.2 ⟨hg, List.forall_mem_singleton.2 ⟨content, hd⟩⟩
    · exact fun _ => ⟨url, hcontent, List.mem_append_right _ (List.mem_singleton.2 rfl), hd⟩

/-- records that are given one after the other are fetched -/
theorem uses_of_givesAll (h : GivesAll t.source filter c w seen c₁ w₁) (hc : Stocked t.api w.requests c) :
    ∃ asked, w₁.requests = w.requests ++ asked ∧ (∀ request ∈ asked, t.api.Grants request) ∧
      Stocked t.api w₁.requests c₁ ∧ ∀ s ∈ seen, Fetched t.api filter w₁.requests s := by
  induction h with
  | nil => exact ⟨[], (List.append_nil _).symm, List.forall_mem_nil _, hc, List.forall_mem_nil _⟩
  | cons hg _ ih =>
    obtain ⟨asked, hr, hall, hs, hf⟩ := uses_of_gives hg hc
    obtain ⟨asked', hr', hall', hs', hf'⟩ := ih hs
    refine ⟨asked ++ asked', ?_, List.forall_mem_append.2 ⟨hall, hall'⟩, hs', List.forall_mem_cons.2 ⟨?_, hf'⟩⟩
    · rw [hr', hr, List.append_assoc]
    · rw [hr']
      exact hf.append _

/-- **A run uses what it was granted.** In an output that takes everything, and after any number of steps, all requests of
a run were granted but the one it failed on, and the output has what it keeps of the blocks of records that were fetched
with them. -/
theorem run_uses (t : RemoteTree) (filter : Filter) (u : Sink.Taking τ) (w : World τ) (hu : u.accepts w.output)
    (hw : w.requests = []) (steps : Nat) :
    ∃ seen used last result? q, (Progress.start t.source w).run filter steps = (result?, q) ∧
      q.world.requests = used ++ last ∧ (∀ request ∈ used, t.api.Grants request) ∧
      (∀ s ∈ seen, Fetched t.api filter used s) ∧ u.accepts q.world.output ∧
      u.held q.world.output = u.held w.output ++ u.kept (utf8Of (blocks (selection filter seen))) ∧
      match result? with
      | some (.error f) => ∃ request, last = [request] ∧ t.api.Refuses request f
      | _ => last = [] := by
  have hstart : Stocked t.api w.requests t.start := List.forall_mem_nil _
  obtain ⟨seen, c, w₁, hg, hrun⟩ := Progress.run_so_far (p := .start t.source w) u hu steps
  obtain ⟨used, hr, hgrants, hstocked, hfetched⟩ := uses_of_givesAll hg hstart
  obtain ⟨ha, hh⟩ := hg.held u hu
  rw [show (Progress.start t.source w).world.requests = [] from hw, List.nil_append] at hr
  rcases hrun with ⟨stats, hrun⟩ | ⟨ending, c₁, w₂, result, q, he, hrun, hy, hq, haq, hhq⟩
  · rw [hr] at hfetched
    exact ⟨seen, used, [], _, _, hrun, by rw [List.append_nil, hr], hgrants, hfetched, ha, hh, rfl⟩
  · obtain ⟨asked, last, hr₂, hgrants', hlast⟩ := uses_of_ends he hstocked
    rw [hr] at hr₂ hfetched
    refine ⟨seen, used ++ asked, last, _, q, hrun, hq.trans hr₂, List.forall_mem_append.2 ⟨hgrants, hgrants'⟩,
      fun s hs => (hfetched s hs).append _, haq, hhq.trans hh, ?_⟩
    unfold Ending.Yields at hy
    unfold ContentsApi.EndsOn at hlast
    cases hf : ending.failure? with
    | none =>
      rw [hf] at hy hlast
      obtain ⟨stats, rfl⟩ := hy
      exact hlast
    | some f =>
      rw [hf] at hy hlast
      subst hy
      exact hlast

end

end ImportHarvest.RemoteTree

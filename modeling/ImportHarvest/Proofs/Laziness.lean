import ImportHarvest.Proofs.ReachedEntries
import ImportHarvest.RemoteTree.Turns
/-!
A walk of a repository asks for no more than it gives.

Every call ends, whatever the listings are: a turn of its search leaves an entry or a listing behind, so there are no more
turns than these (`weight_of_turn`, `search_eq`). A call asks for the directory whose record it gives, and for nothing
with any other record, so what a number of calls ask for is known from what they give: the root, the directories among the
records in order, and the directory whose listing failed, if one did (`asked_of_underway`). After a failure or the end
nothing is left to ask for (`calls_after_end`). All of this holds of any number of calls, so also of walks that never end.
-/

namespace ImportHarvest.RemoteTree

/-! ## Turns of a search -/

/-- how many turns a search may need: one for each entry and one for each listing -/
def weight (stack : List (List Entry)) : Nat := stack.flatten.length + stack.length

theorem weight_of_turn {stack stack' : List (List Entry)} (h : turn stack = .goOn stack') :
    weight stack' < weight stack := by
  unfold turn at h
  split at h
  · cases h
  · cases h
    simp [weight]
  · split at h
    · cases h
    · cases h
      simp only [weight, List.flatten_cons, List.length_append, List.length_cons]
      omega

theorem nextEntry_of_turn (stack : List (List Entry)) :
    nextEntry stack = match turn stack with
      | .finished found => found
      | .goOn stack' => nextEntry stack' := by
  match stack with
  | [] => rfl
  | [] :: outer => rfl
  | (e :: rest) :: outer =>
    cases he : e.kind = "dir" || (e.kind = "file" && e.downloadUrl.isSome) with
    | true => simp only [turn, nextEntry, nextInListing, he, if_true]
    | false => simp only [turn, nextEntry, nextInListing, he, Bool.false_eq_true, if_false]

/-- a search is over after its turns, and finds the next entry -/
theorem search_eq {turns : Nat} {stack : List (List Entry)} (h : weight stack < turns) :
    search turns stack = some (nextEntry stack) := by
  induction turns generalizing stack with
  | zero => exact absurd h (Nat.not_lt_zero _)
  | succ turns ih =>
    rw [search, nextEntry_of_turn]
    cases hturn : turn stack with
    | finished found => rfl
    | goOn stack' =>
      have hless : weight stack' < weight stack := weight_of_turn hturn
      exact ih (by omega)

theorem nextListed_eq (api : ContentsApi) (c : Cursor) : nextListed api c = afterSearch api c (nextEntry c.stack) := by
  unfold nextListed
  cases nextEntry c.stack <;> rfl

/-- **Every call ends**: a number of turns is enough for it -/
theorem exists_turns (api : ContentsApi) (c : Cursor) :
    ∃ turns, ∀ more, turns ≤ more → nextWithin more api c = some (next api c) := by
  unfold nextWithin next
  cases c.unlisted with
  | none =>
    refine ⟨weight c.stack + 1, fun more hmore => ?_⟩
    simp only [search_eq hmore, nextListed_eq, Option.map_some]
  | some root =>
    cases hl : api.list root with
    | error f => exact ⟨0, fun _ _ => by simp only [hl]⟩
    | ok entries =>
      refine ⟨weight [entries] + 1, fun more hmore => ?_⟩
      simp only [hl, search_eq hmore, nextListed_eq, Option.map_some]

/-! ## Calls -/

/-- what a number of calls give, where they leave the walk, and what they ask for -/
structure Calls where
  items : List WalkItem
  cursor : Cursor
  asked : List Request

/-- the first `n` calls from a cursor -/
def calls (api : ContentsApi) : Nat → Cursor → Calls
  | 0, c => ⟨[], c, []⟩
  | n + 1, c =>
    let (item, c, now) := next api c
    let later := calls api n c
    ⟨item :: later.items, later.cursor, now ++ later.asked⟩

/-- the records among what calls give -/
def recordsOf : List WalkItem → List Record
  | [] => []
  | some (.ok r) :: later => r :: recordsOf later
  | _ :: later => recordsOf later

/-- the failure among what calls give -/
def failureOf : List WalkItem → Option Failure
  | [] => none
  | some (.error f) :: _ => some f
  | _ :: later => failureOf later

/-- the listings that go with a record: a directory's own -/
def listingsFor (r : Record) : List Request :=
  match r.content with
  | .url url => if r.isDir then [.list url] else []
  | _ => []

/-- a call gives no record: it fails, or the walk is over -/
def Ended (item : WalkItem) : Prop := ∀ r, item ≠ some (.ok r)

/-- the listing that comes last, besides those of the records: that of the directory below the root that could not be
listed, if there is one -/
def LastListing (t : RemoteTree) (failure : Option Failure) (last : List Request) : Prop :=
  match failure with
  | none => last = []
  | some f =>
    t.api.list t.rootUrl = .error f ∧ last = [] ∨
      ∃ names e, t.Reaches names e ∧ e.kind = "dir" ∧ t.api.list e.url = .error f ∧ last = [.list e.url]

section

variable {t : RemoteTree} {api : ContentsApi} {c c' : Cursor} {item : WalkItem} {now : List Request}

theorem calls_succ (h : next api c = (item, c', now)) (n : Nat) :
    calls api (n + 1) c =
      ⟨item :: (calls api n c').items, (calls api n c').cursor, now ++ (calls api n c').asked⟩ := by
  simp only [calls, h]

theorem calls_add (api : ContentsApi) (n more : Nat) (c : Cursor) :
    calls api (n + more) c =
      ⟨(calls api n c).items ++ (calls api more (calls api n c).cursor).items,
        (calls api more (calls api n c).cursor).cursor,
        (calls api n c).asked ++ (calls api more (calls api n c).cursor).asked⟩ := by
  induction n generalizing c with
  | zero => rw [Nat.zero_add]; rfl
  | succ n ih =>
    rw [Nat.succ_add]
    simp only [calls, ih, List.cons_append, List.append_assoc]

@[simp]
theorem recordsOf_replicate_none (n : Nat) : recordsOf (List.replicate n none) = [] := by
  induction n with
  | zero => rfl
  | succ n ih => exact ih

@[simp]
theorem failureOf_replicate_none (n : Nat) : failureOf (List.replicate n none) = none := by
  induction n with
  | zero => rfl
  | succ n ih => exact ih

theorem listingsFor_are_lists (r : Record) : ∀ q ∈ listingsFor r, ∃ url, q = .list url := by
  unfold listingsFor
  intro q hq
  split at hq
  · split at hq
    · exact ⟨_, List.mem_singleton.1 hq⟩
    · cases hq
  · cases hq

theorem LastListing.are_lists {failure : Option Failure} {last : List Request} (h : t.LastListing failure last) :
    ∀ q ∈ last, ∃ url, q = .list url := by
  intro q hq
  cases failure with
  | none =>
    obtain rfl := h
    cases hq
  | some f =>
    rcases h with ⟨-, rfl⟩ | ⟨_, e, -, -, -, rfl⟩
    · cases hq
    · exact ⟨e.url, List.mem_singleton.1 hq⟩

/-! ## After the end -/

/-- when nothing is left, calls give nothing and ask for nothing -/
theorem calls_of_empty (api : ContentsApi) (rootPath : Option String) (n : Nat) :
    calls api n ⟨none, rootPath, []⟩ = ⟨List.replicate n none, ⟨none, rootPath, []⟩, []⟩ := by
  induction n with
  | zero => rfl
  | succ n ih =>
    have hnext : next api ⟨none, rootPath, []⟩ = (none, ⟨none, rootPath, []⟩, []) := rfl
    rw [calls_succ hnext, ih]
    rfl

theorem Step.empty_of_ended (h : Step api c item c' now) (hu : c.unlisted = none) (he : Ended item) :
    ∃ rootPath, c' = ⟨none, rootPath, []⟩ := by
  cases h with
  | finished => exact ⟨c.rootPath, by rw [hu]⟩
  | unlisted => exact ⟨none, rfl⟩
  | file => exact absurd rfl (he _)
  | directory => exact absurd rfl (he _)

/-- a call without a record leaves nothing -/
theorem Call.empty_of_ended (h : Call api c item c' now) (he : Ended item) : ∃ rootPath, c' = ⟨none, rootPath, []⟩ := by
  cases h with
  | step hu hs => exact hs.empty_of_ended hu he
  | root _ _ hs => exact hs.empty_of_ended rfl he
  | unlisted => exact ⟨none, rfl⟩

/-- after a call without a record the further ones give nothing and ask for nothing -/
theorem calls_after_end {n : Nat} (hm : item ∈ (calls api n c).items) (he : Ended item) (more : Nat) :
    calls api (n + more) c =
      ⟨(calls api n c).items ++ List.replicate more none, (calls api n c).cursor, (calls api n c).asked⟩ := by
  have hempty : ∃ rootPath, (calls api n c).cursor = ⟨none, rootPath, []⟩ := by
    induction n generalizing c with
    | zero => cases hm
    | succ n ih =>
      rcases hnext : next api c with ⟨first, c', now⟩
      rw [calls_succ hnext] at hm ⊢
      rcases List.mem_cons.1 hm with rfl | hm
      · have hcall := call_next api c
        rw [hnext] at hcall
        obtain ⟨rootPath, rfl⟩ := hcall.empty_of_ended he
        exact ⟨rootPath, by rw [calls_of_empty]⟩
      · exact ih hm
  obtain ⟨rootPath, hc⟩ := hempty
  rw [calls_add, hc, calls_of_empty, List.append_nil]

/-! ## What is asked for -/

/-- once the root is listed, calls ask for the directories among their records, and for the one that fails -/
theorem asked_of_underway (hc : t.Underway c) (n : Nat) :
    ∃ last, (calls t.api n c).asked = (recordsOf (calls t.api n c).items).flatMap listingsFor ++ last ∧
      t.LastListing (failureOf (calls t.api n c).items) last := by
  induction n generalizing c with
  | zero => exact ⟨[], rfl, rfl⟩
  | succ n ih =>
    have hstep := hc.step
    rcases hnext : next t.api c with ⟨item, c', now⟩
    rw [hnext] at hstep
    obtain ⟨hc', hgives⟩ := hstep.underway hc
    obtain ⟨last, hasked, hlast⟩ := ih hc'
    rw [calls_succ hnext]
    cases hstep with
    | finished =>
      rw [hc.listed, calls_of_empty]
      exact ⟨[], by simp [recordsOf], by simp [failureOf, LastListing]⟩
    | file => exact ⟨last, by simp [recordsOf, listingsFor, fileRecord, hasked], hlast⟩
    | directory => exact ⟨last, by simp [recordsOf, listingsFor, directoryRecord, hasked], hlast⟩
    | @unlisted _ e f rest hsplit _ hk hl =>
      obtain ⟨names, hreached⟩ := hc.reached e (by simp [hsplit])
      rw [calls_of_empty]
      exact ⟨[.list e.url], by simp [recordsOf], .inr ⟨names, e, hreached, hk, hl, rfl⟩⟩

/-- as soon as there is a call, the root is asked for -/
theorem asked_of_start (t : RemoteTree) (n : Nat) :
    ∃ last, (calls t.api (n + 1) t.start).asked =
        .list t.rootUrl :: (recordsOf (calls t.api (n + 1) t.start).items).flatMap listingsFor ++ last ∧
      t.LastListing (failureOf (calls t.api (n + 1) t.start).items) last := by
  cases hl : t.api.list t.rootUrl with
  | error f =>
    rw [calls_succ (next_start_of_error hl), show Cursor.done = ⟨none, none, []⟩ from rfl, calls_of_empty]
    exact ⟨[], by simp [recordsOf], .inl ⟨hl, rfl⟩⟩
  | ok entries =>
    -- but for the root the first call is that of the walk whose root is listed
    rcases hnext : next t.api (listedStart entries) with ⟨item, c, now⟩
    obtain ⟨last, hasked, hlast⟩ := asked_of_underway (underway_listedStart hl) (n + 1)
    rw [calls_succ hnext] at hasked hlast
    rw [calls_succ (next_start hl hnext)]
    refine ⟨last, ?_, hlast⟩
    dsimp only at hasked ⊢
    rw [List.cons_append, hasked, List.cons_append]

end

/-- **A walk of a repository asks for no more than it gives.** Whatever the listings are, and if they lead back to each
other without end: each call ends; before the first nothing is asked for, and after some calls the root, then the
directories among their records in order, then the directory below the root whose listing failed, if one did, and nothing
else; after a failure or the end further calls give nothing and ask for nothing. No content is asked for. -/
theorem listings_of_calls (t : RemoteTree) (n : Nat) :
    (∃ turns, ∀ more, turns ≤ more → nextWithin more t.api (calls t.api n t.start).cursor =
        some (next t.api (calls t.api n t.start).cursor)) ∧
      (calls t.api 0 t.start).asked = [] ∧
      (∃ last, (calls t.api (n + 1) t.start).asked =
          .list t.rootUrl :: (recordsOf (calls t.api (n + 1) t.start).items).flatMap listingsFor ++ last ∧
        t.LastListing (failureOf (calls t.api (n + 1) t.start).items) last) ∧
      (∀ item ∈ (calls t.api n t.start).items, Ended item → ∀ more, calls t.api (n + more) t.start =
        ⟨(calls t.api n t.start).items ++ List.replicate more none, (calls t.api n t.start).cursor,
          (calls t.api n t.start).asked⟩) ∧
      ∀ q ∈ (calls t.api n t.start).asked, ∃ url, q = .list url := by
  refine ⟨exists_turns t.api _, rfl, asked_of_start t n, fun item hm he => calls_after_end hm he, ?_⟩
  cases n with
  | zero => exact nofun
  | succ n =>
    obtain ⟨last, hasked, hlast⟩ := asked_of_start t n
    rw [hasked, List.cons_append]
    have hbelow : ∀ q ∈ (recordsOf (calls t.api (n + 1) t.start).items).flatMap listingsFor, ∃ url, q = .list url := by
      intro q hq
      obtain ⟨r, -, hq⟩ := List.mem_flatMap.1 hq
      exact listingsFor_are_lists r q hq
    exact List.forall_mem_cons.2 ⟨⟨_, rfl⟩, List.forall_mem_append.2 ⟨hbelow, hlast.are_lists⟩⟩

/-! Two directories that list each other. -/

def ringTree : RemoteTree where
  rootUrl := "a"
  api :=
    { list := fun url =>
        if url = "a" then .ok [⟨"symlink", "s", "s", none, ""⟩, ⟨"dir", "b", "b", none, "b"⟩]
        else .ok [⟨"file", "gone.py", "b/gone.py", none, ""⟩, ⟨"dir", "a", "b/a", none, "a"⟩]
      download := fun url => .error (.transfer url "not found") }

theorem ringTree_three_calls :
    (recordsOf (calls ringTree.api 3 ringTree.start).items).map Record.path = ["b", "b/a", "b"] ∧
      (calls ringTree.api 3 ringTree.start).asked = [.list "a", .list "b", .list "a", .list "b"] := by
  obtain ⟨-, -, ⟨last, hasked, hlast⟩, -⟩ := listings_of_calls ringTree 2
  have hpaths : (recordsOf (calls ringTree.api 3 ringTree.start).items).map Record.path = ["b", "b/a", "b"] := rfl
  have hbelow : (recordsOf (calls ringTree.api 3 ringTree.start).items).flatMap listingsFor =
      [.list "b", .list "a", .list "b"] := rfl
  have hnone : failureOf (calls ringTree.api 3 ringTree.start).items = none := rfl
  rw [hnone] at hlast
  obtain rfl := hlast
  exact ⟨hpaths, by rw [hasked, hbelow]; rfl⟩

end ImportHarvest.RemoteTree

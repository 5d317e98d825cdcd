import ImportHarvest.Proofs.Answers
import ImportHarvest.Proofs.Output
/-!
What a source shows to a run.

`Walk source filter w seen ending` says what a source has to show to a run that begins in the world `w`: the records
`seen`, each with the content of its file if the filter wants it, and then the `ending`. Nothing in it speaks of a run
but that a file's block is in the output when the source is asked again, since a source may look there.

- `gives_or_ends`, `Walk.unique`: a source gives a record or it ends, and what it shows is settled by the source, the
  filter and the world.
- `GivesAll.noted`, `Ends.noted`: the calls that are made on the way.
- `GivesAll.held`, `GivesAll.processed`: what the output then holds, and which files were taken up.
-/

namespace ImportHarvest

open Text

/-! ## Records and their files -/

/-- a record of a walk with the content of its file, which is empty when the file is not read -/
abbrev Sight := Record × Octets

/-- a file whose name and path let it in -/
def Filter.wants (f : Filter) (r : Record) : Bool := !r.isDir && f.isEligible r.name && !f.isExcluded r.relativePath

theorem Filter.verdict_eq_taken (f : Filter) (r : Record) : f.verdict r = .taken ↔ f.wants r = true := by
  unfold verdict wants
  cases r.isDir <;> cases f.isEligible r.name <;> cases f.isExcluded r.relativePath <;> decide

/-- the files of a walk that the filter wants -/
def wanted (filter : Filter) (seen : List Sight) : List Record := (seen.map Prod.fst).filter filter.wants

/-- the texts that a selection is written in -/
def texts (selected : List (Record × String)) : List String := selected.flatMap fun (r, body) => blockTexts r.path body

theorem join_texts (selected : List (Record × String)) : String.join (texts selected) = blocks selected := by
  rw [← String.toList_inj]
  simp only [texts, blocks, block, String.toList_join, List.flatMap_assoc, List.flatMap_map]

theorem selection_cons (filter : Filter) (s : Sight) (seen : List Sight) :
    selection filter (s :: seen) = selection filter [s] ++ selection filter seen :=
  List.filterMap_append (l := [s])

theorem blocks_append (a b : List (Record × String)) : blocks (a ++ b) = blocks a ++ blocks b := by
  rw [← String.toList_inj]
  simp only [blocks, String.toList_join, String.toList_append, List.map_append, List.flatMap_append]

theorem selection_of_not_wanted {filter : Filter} {r : Record} (h : filter.wants r = false) (content : Octets) :
    selection filter [(r, content)] = [] := by
  have : filter.verdict r ≠ .taken := by simp [Filter.verdict_eq_taken, h]
  simp [selection, this]

theorem selection_of_wanted {filter : Filter} {r : Record} (h : filter.wants r = true) (content : Octets) :
    selection filter [(r, content)] = ((bodyOf r content).map fun body => (r, body)).toList := by
  have : filter.verdict r = .taken := (filter.verdict_eq_taken r).2 h
  cases hb : bodyOf r content <;> simp [selection, this, hb]

/-! ## Walks -/

/-- how a walk ends, for a run that reads the files it wants -/
inductive Ending where
  | finished
  | walkFailed (e : Failure)
  | readFailed (r : Record) (e : Failure)
  deriving DecidableEq, Repr

namespace Ending

/-- the failure in which a walk ends -/
def failure? : Ending → Option Failure
  | finished => none
  | walkFailed e => some e
  | readFailed _ e => some e

/-- the file whose read failed -/
def unread : Ending → List Record
  | readFailed r _ => [r]
  | _ => []

/-- the results that a run may have whose walk ends so -/
def Yields (ending : Ending) (result : Except Failure RunStats) : Prop :=
  match ending.failure? with
  | none => ∃ stats, result = .ok stats
  | some e => result = .error e

/-- the last calls of a walk -/
def calls : Ending → List Answer
  | finished => [.item none]
  | walkFailed e => [.item (some (.error e))]
  | readFailed r e => [.item (some (.ok r)), .content r (.error e)]

end Ending

/-- the calls for a record -/
def callsFor (filter : Filter) (s : Sight) : List Answer :=
  .item (some (.ok s.1)) :: if filter.wants s.1 then [.content s.1 (.ok s.2)] else []

section

variable {τ : Type} {source : TreeSource τ} {filter : Filter}

/-- the source gives nothing any more: its walk is at an end or fails, or a file that is wanted cannot be read -/
inductive Ends (source : TreeSource τ) (filter : Filter) (c : source.Cursor) (w : World τ) :
    Ending → source.Cursor → World τ → Prop where
  | finished {c₁ : source.Cursor} {asked : List Request} : source.next c w = (none, c₁, asked) →
      Ends source filter c w .finished c₁ (w.request asked)
  | walkFailed {e : Failure} {c₁ : source.Cursor} {asked : List Request} :
      source.next c w = (some (.error e), c₁, asked) → Ends source filter c w (.walkFailed e) c₁ (w.request asked)
  | readFailed {r : Record} {e : Failure} {c₁ c₂ : source.Cursor} {asked asked' : List Request} :
      source.next c w = (some (.ok r), c₁, asked) → filter.wants r = true →
      source.read r c₁ ((w.request asked).process r) = (.error e, c₂, asked') →
      Ends source filter c w (.readFailed r e) c₂ (((w.request asked).process r).request asked')

variable [Sink τ]

/-- the output with the block of a file added -/
def World.withBlock (filter : Filter) (s : Sight) (w : World τ) : World τ :=
  { w with output := (writeAll (texts (selection filter [s])) w.output).2 }

/-- the source gives one record, and the content of its file when the filter wants it; then the block is written -/
inductive Gives (source : TreeSource τ) (filter : Filter) (c : source.Cursor) (w : World τ) :
    Sight → source.Cursor → World τ → Prop where
  | passed {r : Record} {c₁ : source.Cursor} {asked : List Request} : source.next c w = (some (.ok r), c₁, asked) →
      filter.wants r = false → Gives source filter c w (r, []) c₁ (w.request asked)
  | read {r : Record} {c₁ c₂ : source.Cursor} {asked asked' : List Request} {content : Octets} :
      source.next c w = (some (.ok r), c₁, asked) → filter.wants r = true →
      source.read r c₁ ((w.request asked).process r) = (.ok content, c₂, asked') →
      Gives source filter c w (r, content) c₂
        ((((w.request asked).process r).request asked').withBlock filter (r, content))

/-- the source gives these records, one after the other -/
inductive GivesAll (source : TreeSource τ) (filter : Filter) :
    source.Cursor → World τ → List Sight → source.Cursor → World τ → Prop where
  | nil {c : source.Cursor} {w : World τ} : GivesAll source filter c w [] c w
  | cons {c c₁ c₂ : source.Cursor} {w w₁ w₂ : World τ} {s : Sight} {seen : List Sight} :
      Gives source filter c w s c₁ w₁ → GivesAll source filter c₁ w₁ seen c₂ w₂ →
      GivesAll source filter c w (s :: seen) c₂ w₂

/-- from the start, the source gives these records and then ends so -/
def Walk (source : TreeSource τ) (filter : Filter) (w : World τ) (seen : List Sight) (ending : Ending) : Prop :=
  ∃ c₁ w₁ c₂ w₂, GivesAll source filter (source.start w) w seen c₁ w₁ ∧ Ends source filter c₁ w₁ ending c₂ w₂

/-- a source gives a record, or it ends -/
theorem gives_or_ends (source : TreeSource τ) (filter : Filter) (c : source.Cursor) (w : World τ) :
    (∃ s c₁ w₁, Gives source filter c w s c₁ w₁) ∨ ∃ ending c₁ w₁, Ends source filter c w ending c₁ w₁ := by
  rcases hn : source.next c w with ⟨_ | e | r, c₁, asked⟩
  · exact .inr ⟨_, _, _, .finished hn⟩
  · exact .inr ⟨_, _, _, .walkFailed hn⟩
  · cases hw : filter.wants r with
    | false => exact .inl ⟨_, _, _, .passed hn hw⟩
    | true =>
      rcases hr : source.read r c₁ ((w.request asked).process r) with ⟨e | content, c₂, asked'⟩
      · exact .inr ⟨_, _, _, .readFailed hn hw hr⟩
      · exact .inl ⟨_, _, _, .read hn hw hr⟩

end

/-! ## A walk is determined -/

section

variable {τ : Type} {source : TreeSource τ} {filter : Filter} {c c₁ c₂ : source.Cursor} {w w₁ w₂ : World τ}

theorem Ends.unique {ending ending' : Ending} (h : Ends source filter c w ending c₁ w₁)
    (h' : Ends source filter c w ending' c₂ w₂) : ending' = ending := by
  cases h with
  | finished hn =>
    cases h' with
    | finished => rfl
    | walkFailed hn' => cases hn.symm.trans hn'
    | readFailed hn' => cases hn.symm.trans hn'
  | walkFailed hn =>
    cases h' with
    | finished hn' => cases hn.symm.trans hn'
    | walkFailed hn' => cases hn.symm.trans hn'; rfl
    | readFailed hn' => cases hn.symm.trans hn'
  | readFailed hn _ hr =>
    cases h' with
    | finished hn' => cases hn.symm.trans hn'
    | walkFailed hn' => cases hn.symm.trans hn'
    | readFailed hn' _ hr' => cases hn.symm.trans hn'; cases hr.symm.trans hr'; rfl

variable [Sink τ]

theorem Gives.not_ends {s : Sight} {ending : Ending} (h : Gives source filter c w s c₁ w₁) :
    ¬ Ends source filter c w ending c₂ w₂ := by
  intro he
  cases h with
  | passed hn hw =>
    cases he with
    | finished hn' => cases hn.symm.trans hn'
    | walkFailed hn' => cases hn.symm.trans hn'
    | readFailed hn' hw' => cases hn.symm.trans hn'; exact absurd hw' (by simp [hw])
  | read hn hw hr =>
    cases he with
    | finished hn' => cases hn.symm.trans hn'
    | walkFailed hn' => cases hn.symm.trans hn'
    | readFailed hn' _ hr' => cases hn.symm.trans hn'; cases hr.symm.trans hr'

theorem Gives.unique {s s' : Sight} (h : Gives source filter c w s c₁ w₁) (h' : Gives source filter c w s' c₂ w₂) :
    s' = s ∧ c₂ = c₁ ∧ w₂ = w₁ := by
  cases h with
  | passed hn hw =>
    cases h' with
    | passed hn' => cases hn.symm.trans hn'; exact ⟨rfl, rfl, rfl⟩
    | read hn' hw' => cases hn.symm.trans hn'; exact absurd hw' (by simp [hw])
  | read hn hw hr =>
    cases h' with
    | passed hn' hw' => cases hn.symm.trans hn'; exact absurd hw (by simp [hw'])
    | read hn' _ hr' => cases hn.symm.trans hn'; cases hr.symm.trans hr'; exact ⟨rfl, rfl, rfl⟩

theorem GivesAll.unique {seen seen' : List Sight} {ending ending' : Ending} {d₁ d₂ : source.Cursor} {v₁ v₂ : World τ}
    (h : GivesAll source filter c w seen c₁ w₁) (he : Ends source filter c₁ w₁ ending d₁ v₁)
    (h' : GivesAll source filter c w seen' c₂ w₂) (he' : Ends source filter c₂ w₂ ending' d₂ v₂) :
    seen' = seen ∧ ending' = ending := by
  induction h generalizing seen' with
  | nil =>
    cases h' with
    | nil => exact ⟨rfl, he.unique he'⟩
    | cons hg' => exact absurd he hg'.not_ends
  | cons hg _ ih =>
    cases h' with
    | nil => exact absurd he' hg.not_ends
    | cons hg' hgs' =>
      obtain ⟨rfl, rfl, rfl⟩ := hg.unique hg'
      obtain ⟨rfl, rfl⟩ := ih he hgs'
      exact ⟨rfl, rfl⟩

/-- what a source gives from the start, and how it ends, is settled by the source, the filter and the world -/
theorem Walk.unique {seen seen' : List Sight} {ending ending' : Ending} (h : Walk source filter w seen ending)
    (h' : Walk source filter w seen' ending') : seen' = seen ∧ ending' = ending := by
  obtain ⟨_, _, _, _, hg, he⟩ := h
  obtain ⟨_, _, _, _, hg', he'⟩ := h'
  exact hg.unique he hg' he'

end

/-! ## Walks of a source with its answers noted -/

section

variable {τ : Type} {source : TreeSource τ} {filter : Filter} {c c₁ : source.Cursor} {w w₁ : World τ}

theorem Ends.noted {ending : Ending} (h : Ends source filter c w ending c₁ w₁) (log : List Answer) :
    Ends source.noted filter (c, log) w ending (c₁, log ++ ending.calls) w₁ := by
  cases h with
  | finished hn => exact .finished (noted_next hn log)
  | walkFailed hn => exact .walkFailed (noted_next hn log)
  | @readFailed r e _ _ _ _ hn hw hr =>
    have hc : log ++ (Ending.readFailed r e).calls = log ++ [.item (some (.ok r))] ++ [.content r (.error e)] := by
      simp [Ending.calls]
    rw [hc]
    exact .readFailed (noted_next hn log) hw (noted_read hr _)

variable [Sink τ]

theorem Gives.noted {s : Sight} (h : Gives source filter c w s c₁ w₁) (log : List Answer) :
    Gives source.noted filter (c, log) w s (c₁, log ++ callsFor filter s) w₁ := by
  cases h with
  | @passed r _ asked hn hw =>
    have hc : callsFor filter (r, []) = [.item (some (.ok r))] := by simp [callsFor, hw]
    rw [hc]
    exact .passed (noted_next hn log) hw
  | @read r _ _ asked asked' content hn hw hr =>
    have hc : log ++ callsFor filter (r, content) = log ++ [.item (some (.ok r))] ++ [.content r (.ok content)] := by
      simp [callsFor, hw]
    rw [hc]
    exact .read (noted_next hn log) hw (noted_read hr _)

theorem GivesAll.noted {seen : List Sight} (h : GivesAll source filter c w seen c₁ w₁) (log : List Answer) :
    GivesAll source.noted filter (c, log) w seen (c₁, log ++ seen.flatMap (callsFor filter)) w₁ := by
  induction h generalizing log with
  | nil =>
    rw [List.flatMap_nil, List.append_nil]
    exact .nil
  | cons hg _ ih =>
    rw [List.flatMap_cons, ← List.append_assoc]
    exact .cons (hg.noted log) (ih _)

end

/-! ## What a walk does to the world -/

section

variable {τ : Type} {source : TreeSource τ} {filter : Filter} {c c₁ : source.Cursor} {w w₁ : World τ}

theorem wanted_cons (filter : Filter) (s : Sight) (seen : List Sight) :
    wanted filter (s :: seen) = wanted filter [s] ++ wanted filter seen := by
  simp only [wanted, ← List.filter_append, ← List.map_append, List.singleton_append]

theorem Ends.output {ending : Ending} (h : Ends source filter c w ending c₁ w₁) : w₁.output = w.output := by
  cases h <;> rfl

theorem Ends.processed {ending : Ending} (h : Ends source filter c w ending c₁ w₁) :
    w₁.processed = w.processed ++ ending.unread := by
  cases h <;> simp [Ending.unread]

variable [Sink τ]

theorem Gives.processed {s : Sight} (h : Gives source filter c w s c₁ w₁) :
    w₁.processed = w.processed ++ wanted filter [s] := by
  cases h with
  | passed hn hw => simp [wanted, hw]
  | read hn hw hr => simp [World.withBlock, wanted, hw]

theorem GivesAll.processed {seen : List Sight} (h : GivesAll source filter c w seen c₁ w₁) :
    w₁.processed = w.processed ++ wanted filter seen := by
  induction h with
  | nil => exact (List.append_nil _).symm
  | @cons _ _ _ _ _ _ s seen hg _ ih => rw [ih, hg.processed, wanted_cons filter s seen, List.append_assoc]

/-- in an output that takes everything, the block of a file is added, as far as it is kept -/
theorem Gives.held (u : Sink.Taking τ) {s : Sight} (h : Gives source filter c w s c₁ w₁) (hu : u.accepts w.output) :
    u.accepts w₁.output ∧ u.held w₁.output = u.held w.output ++ u.kept (utf8Of (blocks (selection filter [s]))) := by
  cases h with
  | passed hn hw =>
    have hnone : utf8Of (blocks []) = [] := rfl
    refine ⟨hu, ?_⟩
    rw [selection_of_not_wanted hw, World.request_output, hnone, u.kept_nil, List.append_nil]
  | @read r _ _ _ _ content hn hw hr =>
    obtain ⟨output, ht, ha, hh⟩ := u.write_texts (texts (selection filter [(r, content)])) w.output hu
    simp only [World.withBlock, World.request_output, World.process_output, ht]
    exact ⟨ha, hh.trans (by rw [join_texts])⟩

theorem GivesAll.held (u : Sink.Taking τ) {seen : List Sight} (h : GivesAll source filter c w seen c₁ w₁)
    (hu : u.accepts w.output) :
    u.accepts w₁.output ∧ u.held w₁.output = u.held w.output ++ u.kept (utf8Of (blocks (selection filter seen))) := by
  induction h with
  | nil =>
    have hnone : utf8Of (blocks (selection filter [])) = [] := rfl
    exact ⟨hu, by rw [hnone, u.kept_nil, List.append_nil]⟩
  | @cons _ _ _ _ _ _ s seen hg _ ih =>
    obtain ⟨ha, hh⟩ := hg.held u hu
    obtain ⟨ha', hh'⟩ := ih ha
    refine ⟨ha', ?_⟩
    rw [hh', hh, selection_cons filter s seen, blocks_append, utf8Of_append, u.kept_append, List.append_assoc]

end

/-! ## Walks that are worked out beforehand -/

/-- steps that are all records have no failure among them -/
theorem Listing.of_items {l : Listing} {records : List Record} (h : l.items = records.map .ok) :
    l.records = records ∧ l.failure = none := by
  obtain ⟨records', failure⟩ := l
  cases failure with
  | none =>
    have hmap : records'.map (Except.ok : Record → Except Failure Record) = records.map .ok := by
      simpa [items] using h
    exact ⟨(List.map_inj_right fun _ _ => Except.ok.inj).1 hmap, rfl⟩
  | some f =>
    have hf : (.error f : Except Failure Record) ∈ records.map .ok := by
      rw [← h]
      simp [items]
    simp at hf

section

variable {τ : Type} {describe : String} {steps : World τ → List (Except Failure Record)}
  {read : Record → World τ → Except Failure Octets} {filter : Filter}
  {c c₁ : (TreeSource.ofItems describe steps read).Cursor} {w w₁ : World τ}

theorem Ends.items_of_finished (h : Ends (.ofItems describe steps read) filter c w .finished c₁ w₁) : c = [] := by
  cases h with
  | finished hn =>
    match c with
    | [] => rfl
    | .ok r :: rest => cases hn
    | .error f :: rest => cases hn

variable [Sink τ]

theorem Gives.items {s : Sight} (h : Gives (.ofItems describe steps read) filter c w s c₁ w₁) : c = .ok s.1 :: c₁ := by
  cases h with
  | passed hn =>
    match c with
    | [] => cases hn
    | .ok r :: rest => cases hn; rfl
    | .error f :: rest => cases hn
  | read hn _ hr =>
    match c with
    | [] => cases hn
    | .ok r :: rest =>
      cases hn
      obtain rfl : _ = c₁ := congrArg (fun answer => answer.2.1) hr
      rfl
    | .error f :: rest => cases hn

theorem GivesAll.items {seen : List Sight} (h : GivesAll (.ofItems describe steps read) filter c w seen c₁ w₁) :
    c = List.append (seen.map fun s => .ok s.1) c₁ := by
  induction h with
  | nil => rfl
  | cons hg _ ih => rw [hg.items, ih]; rfl

/-- a walk that finishes gave all that was worked out -/
theorem Walk.items_of_finished {seen : List Sight}
    (h : Walk (.ofItems describe steps read) filter w seen .finished) : steps w = seen.map fun s => .ok s.1 := by
  obtain ⟨c₁, w₁, c₂, w₂, hg, he⟩ := h
  obtain rfl : c₁ = [] := he.items_of_finished
  exact hg.items.trans (List.append_nil _)

end

end ImportHarvest

import ImportHarvest.Proofs.Walk
/-!
Runs, step by step.

A step is given a record and goes on, or it is the last (`step_of_gives`, `step_of_finished`, `step_of_failed`). With an
output that takes everything a run goes through the whole walk of its source and no further (`run_of_walk`), and a run
that has a result went through a walk (`walk_of_run`); both are put together for `aggregate` at the end.
-/

namespace ImportHarvest

open Text

/-! ## Steps -/

namespace Progress

variable {τ : Type} [Sink τ] {source : TreeSource τ} {filter : Filter} {p : Progress source} {c : source.Cursor}
  {w : World τ}

/-- what a failed write ends a run with -/
def writeFailure : Except Fault Unit → Option Failure
  | .ok _ => none
  | .error fault => some (.io outputLabel fault)

/-- storing a file that is wanted writes its block, or nothing when it has no text -/
theorem store_wanted {r : Record} (h : filter.wants r = true) (content : Octets) (p : Progress source) :
    (p.store r content).1 = writeFailure (writeAll (texts (selection filter [(r, content)])) p.world.output).1 ∧
      (p.store r content).2.cursor = p.cursor ∧
      (p.store r content).2.world = p.world.withBlock filter (r, content) := by
  unfold World.withBlock store
  rw [selection_of_wanted h]
  cases bodyOf r content with
  | none => exact ⟨rfl, rfl, rfl⟩
  | some body =>
    have ht : texts ((some body).map fun body => (r, body)).toList = blockTexts r.path body := by simp [texts]
    simp only [writeBlock, ht]
    rcases writeAll (blockTexts r.path body) p.world.output with ⟨fault | _, output⟩ <;> exact ⟨rfl, rfl, rfl⟩

/-- a record that is not wanted is passed over, and only counted -/
theorem takeRecord_of_not_wanted {r : Record} (h : filter.wants r = false) (p : Progress source) :
    ∃ stats, p.takeRecord filter r = (none, { p with stats }) := by
  have hv : filter.verdict r ≠ .taken := by simp [Filter.verdict_eq_taken, h]
  unfold takeRecord
  cases hc : filter.verdict r with
  | taken => exact absurd hc hv
  | _ => exact ⟨_, rfl⟩

theorem takeRecord_of_wanted {r : Record} (h : filter.wants r = true) (p : Progress source) :
    p.takeRecord filter r = p.takeFile r := by
  rw [takeRecord, (filter.verdict_eq_taken r).2 h]

/-- a step that is given a record goes on from there, unless its block cannot be written -/
theorem step_of_gives {s : Sight} (h : Gives source filter p.cursor p.world s c w) :
    (p.step filter).1 = (writeFailure (writeAll (texts (selection filter [s])) p.world.output).1).map .error ∧
      (p.step filter).2.cursor = c ∧ (p.step filter).2.world = w := by
  cases h with
  | @passed r _ asked hn hw =>
    obtain ⟨stats, ht⟩ := takeRecord_of_not_wanted hw ⟨c, p.stats, p.world.request asked⟩
    have hs : p.step filter = (none, ⟨c, stats, p.world.request asked⟩) := by
      simp only [step, next, hn, ht, Option.map_none]
    rw [hs, selection_of_not_wanted hw]
    exact ⟨rfl, rfl, rfl⟩
  | @read r c₁ _ asked asked' content hn hw hr =>
    obtain ⟨hf, hc, hs⟩ := store_wanted hw content
      (⟨c, p.stats, ((p.world.request asked).process r).request asked'⟩ : Progress source)
    simp only [step, next, hn, takeRecord_of_wanted hw, takeFile, read, hr]
    exact ⟨congrArg _ hf, hc, hs⟩

/-- the result that a run has when its walk is at an end -/
def flushResult (stats : RunStats) : Except Fault Unit → Except Failure RunStats
  | .ok _ => .ok stats
  | .error fault => .error (.io outputLabel fault)

/-- a step that finds the walk at an end flushes the output -/
theorem step_of_finished (h : Ends source filter p.cursor p.world .finished c w) :
    (p.step filter).1 = some (flushResult p.stats (Sink.flush p.world.output).1) ∧
      (p.step filter).2.cursor = c ∧
      (p.step filter).2.world = { w with output := (Sink.flush p.world.output).2 } := by
  cases h with
  | @finished _ asked hn =>
    simp only [step, next, hn, finish, World.request_output]
    rcases Sink.flush p.world.output with ⟨fault | _, output⟩ <;> exact ⟨rfl, rfl, rfl⟩

/-- a step that meets a failure of the source does nothing more -/
theorem step_of_failed {ending : Ending} {e : Failure} (he : ending.failure? = some e)
    (h : Ends source filter p.cursor p.world ending c w) :
    (p.step filter).1 = some (.error e) ∧ (p.step filter).2.cursor = c ∧ (p.step filter).2.world = w := by
  cases h with
  | finished => cases he
  | walkFailed hn =>
    cases he
    rw [step, next, hn]
    exact ⟨rfl, rfl, rfl⟩
  | readFailed hn hw hr =>
    cases he
    rw [step, next, hn]
    dsimp only
    rw [takeRecord_of_wanted hw, takeFile, read, hr]
    exact ⟨rfl, rfl, rfl⟩

/-! ## Runs -/

variable {seen : List Sight} {ending : Ending} {c₁ c₂ : source.Cursor} {w₁ w₂ : World τ}

/-- in an output that takes everything the block can be written, so a step that is given a record goes on -/
theorem step_goes_on (u : Sink.Taking τ) {s : Sight} (h : Gives source filter p.cursor p.world s c w)
    (hu : u.accepts p.world.output) : ∃ stats, p.step filter = (none, ⟨c, stats, w⟩) := by
  obtain ⟨output, ht, -, -⟩ := u.write_texts (texts (selection filter [s])) p.world.output hu
  obtain ⟨hr, hc, hw⟩ := step_of_gives h
  rw [ht] at hr
  refine ⟨(p.step filter).2.stats, ?_⟩
  rw [← hc, ← hw]
  exact Prod.ext hr rfl

/-- with an output that takes everything, a run goes on behind the records that its source gives -/
theorem run_of_gives (u : Sink.Taking τ) (h : GivesAll source filter c w seen c₁ w₁) (hu : u.accepts w.output)
    (stats : RunStats) (steps : Nat) :
    ∃ stats', run filter (seen.length + steps) (⟨c, stats, w⟩ : Progress source) = run filter steps ⟨c₁, stats', w₁⟩ := by
  induction h generalizing stats with
  | nil => exact ⟨stats, by rw [List.length_nil, Nat.zero_add]⟩
  | @cons c _ _ w _ _ s seen hg _ ih =>
    obtain ⟨counted, hstep⟩ := step_goes_on (p := ⟨c, stats, w⟩) u hg hu
    obtain ⟨stats', hrun⟩ := ih (hg.held u hu).1 counted
    refine ⟨stats', ?_⟩
    rw [List.length_cons, Nat.add_right_comm, run, hstep]
    exact hrun

/-- a step that finds the walk at an end or meets a failure of the source is the last -/
theorem step_of_ends (u : Sink.Taking τ) (h : Ends source filter p.cursor p.world ending c w)
    (hu : u.accepts p.world.output) :
    ∃ result q, p.step filter = (some result, q) ∧ ending.Yields result ∧ q.cursor = c ∧
      q.world.requests = w.requests ∧ q.world.processed = w.processed ∧ u.accepts q.world.output ∧
      u.held q.world.output = u.held p.world.output := by
  cases hf : ending.failure? with
  | none =>
    obtain rfl : ending = .finished := by cases ending <;> first | rfl | cases hf
    obtain ⟨output, hfl, ha, hh⟩ := u.flush _ hu
    obtain ⟨hr, hc, hw⟩ := step_of_finished h
    rw [hfl] at hr hw
    refine ⟨_, _, Prod.ext hr rfl, ⟨p.stats, rfl⟩, hc, ?_⟩
    rw [hw]
    exact ⟨rfl, rfl, ha, hh⟩
  | some e =>
    obtain ⟨hr, hc, hw⟩ := step_of_failed hf h
    refine ⟨_, _, Prod.ext hr rfl, ?_, hc, ?_⟩
    · rw [Ending.Yields, hf]
    · rw [hw, h.output]
      exact ⟨rfl, rfl, hu, rfl⟩

/-- **A run goes through its walk**: with an output that takes everything and steps enough, a run takes up what the
source gives, adds the blocks to the output, and ends as the walk does, with the requests that were made on the way -/
theorem run_of_walk (u : Sink.Taking τ) (hg : GivesAll source filter p.cursor p.world seen c₁ w₁)
    (he : Ends source filter c₁ w₁ ending c₂ w₂) (hu : u.accepts p.world.output) {steps : Nat}
    (hs : seen.length < steps) :
    ∃ result q, p.run filter steps = (some result, q) ∧ ending.Yields result ∧ q.cursor = c₂ ∧
      q.world.requests = w₂.requests ∧
      q.world.processed = p.world.processed ++ wanted filter seen ++ ending.unread ∧ u.accepts q.world.output ∧
      u.held q.world.output = u.held p.world.output ++ u.kept (utf8Of (blocks (selection filter seen))) := by
  obtain ⟨more, rfl⟩ : ∃ more, steps = seen.length + (more + 1) := ⟨steps - seen.length - 1, by omega⟩
  obtain ⟨ha, hh⟩ := hg.held u hu
  obtain ⟨stats, hrun⟩ := run_of_gives u hg hu p.stats (more + 1)
  obtain ⟨result, q, hstep, hy, hc, hr, hp, hq, hl⟩ := step_of_ends (p := ⟨c₁, stats, w₁⟩) u he ha
  refine ⟨result, q, ?_, hy, hc, hr, ?_, hq, hl.trans hh⟩
  · rw [hrun, run, hstep]
  · rw [hp, he.processed, hg.processed]

/-- a run that has a result went through a walk -/
theorem walk_of_run (u : Sink.Taking τ) {steps : Nat} {result : Except Failure RunStats} {q : Progress source}
    (h : p.run filter steps = (some result, q)) (hu : u.accepts p.world.output) :
    ∃ seen ending c₁ w₁ c₂ w₂, seen.length < steps ∧ GivesAll source filter p.cursor p.world seen c₁ w₁ ∧
      Ends source filter c₁ w₁ ending c₂ w₂ := by
  induction steps generalizing p with
  | zero => cases h
  | succ n ih =>
    rcases gives_or_ends source filter p.cursor p.world with ⟨s, c, w, hg⟩ | ⟨ending, c, w, he⟩
    · obtain ⟨stats, hstep⟩ := step_goes_on u hg hu
      rw [run, hstep] at h
      obtain ⟨seen, ending, c₁, w₁, c₂, w₂, hl, hgs, he⟩ := ih h (hg.held u hu).1
      exact ⟨s :: seen, ending, c₁, w₁, c₂, w₂, Nat.succ_lt_succ hl, .cons hg hgs, he⟩
    · exact ⟨[], ending, _, _, _, _, Nat.succ_pos n, .nil, he⟩

/-- a run of any number of steps stands behind the records that its source gave, or its walk ended there -/
theorem run_so_far (u : Sink.Taking τ) (hu : u.accepts p.world.output) (steps : Nat) :
    ∃ seen c w, GivesAll source filter p.cursor p.world seen c w ∧
      ((∃ stats, p.run filter steps = (none, ⟨c, stats, w⟩)) ∨
        ∃ ending c₁ w₁ result q, Ends source filter c w ending c₁ w₁ ∧ p.run filter steps = (some result, q) ∧
          ending.Yields result ∧ q.world.requests = w₁.requests ∧ u.accepts q.world.output ∧
          u.held q.world.output = u.held w.output) := by
  induction steps generalizing p with
  | zero => exact ⟨[], _, _, .nil, .inl ⟨p.stats, rfl⟩⟩
  | succ n ih =>
    rw [run]
    rcases gives_or_ends source filter p.cursor p.world with ⟨s, c, w, hg⟩ | ⟨ending, c, w, he⟩
    · obtain ⟨stats, hstep⟩ := step_goes_on u hg hu
      obtain ⟨seen, c₁, w₁, hgs, hrun⟩ := ih (p := ⟨c, stats, w⟩) (hg.held u hu).1
      rw [hstep]
      exact ⟨s :: seen, c₁, w₁, .cons hg hgs, hrun⟩
    · obtain ⟨result, q, hstep, hy, -, hr, -, ha, hh⟩ := step_of_ends u he hu
      rw [hstep]
      exact ⟨[], _, _, .nil, .inr ⟨ending, c, w, result, q, he, rfl, hy, hr, ha, hh⟩⟩

end Progress

section

variable {τ : Type} [Sink τ] {source : TreeSource τ} {filter : Filter} {w : World τ} {seen : List Sight}
  {ending : Ending} {steps : Nat}

/-- what `aggregate` comes to on a walk, with an output that takes everything -/
theorem aggregate_of_taking (u : Sink.Taking τ) (hu : u.accepts w.output) (h : Walk source filter w seen ending)
    (hs : seen.length < steps) :
    ∃ result after, aggregate steps source filter w = some (result, after) ∧ ending.Yields result ∧
      after.processed = w.processed ++ wanted filter seen ++ ending.unread ∧ u.accepts after.output ∧
      u.held after.output = u.held w.output ++ u.kept (utf8Of (blocks (selection filter seen))) := by
  obtain ⟨c₁, w₁, c₂, w₂, hg, he⟩ := h
  obtain ⟨result, q, hr, hy, -, -, hp, ha, hh⟩ := Progress.run_of_walk (p := .start source w) u hg he hu hs
  exact ⟨result, q.world, by rw [aggregate, hr], hy, hp, ha, hh⟩

/-- what `aggregate` comes to on a walk, with an output that takes everything and keeps all of it -/
theorem aggregate_of_walk (u : Sink.Unlimited τ) (hu : u.accepts w.output) (h : Walk source filter w seen ending)
    (hs : seen.length < steps) :
    ∃ result after, aggregate steps source filter w = some (result, after) ∧ ending.Yields result ∧
      after.processed = w.processed ++ wanted filter seen ++ ending.unread ∧ u.accepts after.output ∧
      u.held after.output = u.held w.output ++ utf8Of (blocks (selection filter seen)) := by
  obtain ⟨result, after, ha, hy, hp, hu', hh⟩ := aggregate_of_taking u.toTaking hu h hs
  rw [u.keepsAll] at hh
  exact ⟨result, after, ha, hy, hp, hu', hh⟩

/-- the calls that a run makes on a walk: those of the records that are given, those of the ending, and no other -/
theorem answers_of_walk (u : Sink.Taking τ) (hu : u.accepts w.output) (h : Walk source filter w seen ending)
    (hs : seen.length < steps) :
    answers steps source filter w = seen.flatMap (callsFor filter) ++ ending.calls := by
  obtain ⟨c₁, w₁, c₂, w₂, hg, he⟩ := h
  obtain ⟨result, q, hr, -, hc, -⟩ :=
    Progress.run_of_walk (p := .start source.noted w) u (hg.noted []) (he.noted _) hu hs
  rw [answers, hr, Progress.answers, hc, List.nil_append]

/-- with an output that takes everything, `aggregate` has a result when its walk is short enough, and only then -/
theorem walk_of_aggregate (u : Sink.Taking τ) (hu : u.accepts w.output) {result : Except Failure RunStats}
    {after : World τ} (h : aggregate steps source filter w = some (result, after)) :
    ∃ seen ending, seen.length < steps ∧ Walk source filter w seen ending := by
  unfold aggregate at h
  rcases hr : (Progress.start source w).run filter steps with ⟨_ | result, p⟩ <;> rw [hr] at h
  · cases h
  · obtain ⟨seen, ending, c₁, w₁, c₂, w₂, hl, hg, he⟩ := Progress.walk_of_run u hr hu
    exact ⟨seen, ending, hl, c₁, w₁, c₂, w₂, hg, he⟩

end

end ImportHarvest

import ImportHarvest.Aggregate
/-!
What a source answers to a run.

`TreeSource.noted` is the source with its answers noted beside its cursor, call by call: what `next` gave, and what `read`
gave for which record. Nothing else changes: the projection to the source itself is exact (`plain_run`), so `answers` is
what the source answers to the run, and a call that is not in it was not made.
-/

namespace ImportHarvest

open Text

/-- what a source answered to one call -/
inductive Answer where
  | item (item : WalkItem)
  | content (r : Record) (content : Except Failure Octets)

/-- the source with its answers noted -/
def TreeSource.noted {τ : Type} (source : TreeSource τ) : TreeSource τ where
  describe := source.describe
  Cursor := source.Cursor × List Answer
  start := fun w => (source.start w, [])
  next := fun c w =>
    let (item, cursor, asked) := source.next c.1 w
    (item, (cursor, c.2 ++ [.item item]), asked)
  read := fun r c w =>
    let (content, cursor, asked) := source.read r c.1 w
    (content, (cursor, c.2 ++ [.content r content]), asked)

section

variable {τ : Type} {source : TreeSource τ} {c c₁ : source.Cursor} {w : World τ} {asked : List Request}

theorem noted_next {item : WalkItem} (h : source.next c w = (item, c₁, asked)) (log : List Answer) :
    source.noted.next (c, log) w = (item, (c₁, log ++ [.item item]), asked) := by
  simp only [TreeSource.noted, h]

theorem noted_read {r : Record} {content : Except Failure Octets} (h : source.read r c w = (content, c₁, asked))
    (log : List Answer) : source.noted.read r (c, log) w = (content, (c₁, log ++ [.content r content]), asked) := by
  simp only [TreeSource.noted, h]

end

namespace Progress

variable {τ : Type} {source : TreeSource τ}

/-- the answers so far -/
def answers (p : Progress source.noted) : List Answer := p.cursor.2

/-- the run without the notes -/
def plain (p : Progress source.noted) : Progress source := ⟨p.cursor.1, p.stats, p.world⟩

theorem plain_next (p : Progress source.noted) : p.plain.next = (p.next.1, p.next.2.plain) := rfl

theorem plain_read (r : Record) (p : Progress source.noted) : p.plain.read r = ((p.read r).1, (p.read r).2.plain) := rfl

variable [Sink τ]

theorem plain_store (r : Record) (content : Octets) (p : Progress source.noted) :
    p.plain.store r content = ((p.store r content).1, (p.store r content).2.plain) := by
  unfold store
  cases bodyOf r content with
  | none => rfl
  | some body =>
    simp only [plain]
    rcases writeBlock r.path body p.world.output with ⟨_ | _, _⟩ <;> rfl

theorem plain_takeFile (r : Record) (p : Progress source.noted) :
    p.plain.takeFile r = ((p.takeFile r).1, (p.takeFile r).2.plain) := by
  unfold takeFile
  rw [plain_read]
  rcases p.read r with ⟨_ | content, q⟩
  · rfl
  · exact plain_store r content q

theorem plain_takeRecord (filter : Filter) (r : Record) (p : Progress source.noted) :
    p.plain.takeRecord filter r = ((p.takeRecord filter r).1, (p.takeRecord filter r).2.plain) := by
  unfold takeRecord
  cases filter.verdict r with
  | taken => exact plain_takeFile r p
  | _ => rfl

theorem plain_finish (p : Progress source.noted) : p.plain.finish = (p.finish.1, p.finish.2.plain) := by
  unfold finish
  simp only [plain]
  rcases Sink.flush p.world.output with ⟨_ | _, _⟩ <;> rfl

theorem plain_step (filter : Filter) (p : Progress source.noted) :
    p.plain.step filter = ((p.step filter).1, (p.step filter).2.plain) := by
  unfold step
  rw [plain_next]
  rcases p.next with ⟨_ | _ | r, q⟩
  · simp only [plain_finish]
  · rfl
  · simp only [plain_takeRecord]

/-- **The projection is exact**: a run of the source is a run of the source with its answers noted, without the notes -/
theorem plain_run (filter : Filter) (steps : Nat) (p : Progress source.noted) :
    p.plain.run filter steps = ((p.run filter steps).1, (p.run filter steps).2.plain) := by
  induction steps generalizing p with
  | zero => rfl
  | succ n ih =>
    simp only [run, plain_step]
    rcases p.step filter with ⟨_ | result, q⟩
    · exact ih q
    · rfl

end Progress

section

variable {τ : Type} [Sink τ]

/-- what a source answers to a run of at most so many steps -/
def answers (steps : Nat) (source : TreeSource τ) (filter : Filter) (w : World τ) : List Answer :=
  ((Progress.start source.noted w).run filter steps).2.answers

/-- noting the answers of a source changes nothing that a run does -/
theorem aggregate_noted (steps : Nat) (source : TreeSource τ) (filter : Filter) (w : World τ) :
    aggregate steps source.noted filter w = aggregate steps source filter w := by
  have h := Progress.plain_run filter steps (Progress.start source.noted w)
  have hs : (Progress.start source.noted w).plain = Progress.start source w := rfl
  rw [hs] at h
  unfold aggregate
  rw [h]
  rcases (Progress.start source.noted w).run filter steps with ⟨_ | result, p⟩ <;> rfl

end

end ImportHarvest

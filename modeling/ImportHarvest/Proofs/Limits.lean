import ImportHarvest.Proofs.Counts
/-!
Outputs that fill up.

In some outputs two writes, the second made when the first was taken, are like one write of both (`Sink.Seamless`); memory
with a limit is one, wherever the limit falls. So the writes of a block are like one write of the block, and the blocks of
a run like one write of the artifact: a run into such an output is that write and a flush (`aggregate_of_write`). With a
limit, the output keeps the start of the artifact that fits, and the run tells of a full output and of a flush that failed
(`limited_output_keeps_start`).
-/

namespace ImportHarvest

open Text

/-! ## Writes that are like one -/

/-- nothing is written without a change, and two writes one after the other are like one of both -/
structure Sink.Seamless (τ : Type) [Sink τ] : Prop where
  write_nil : ∀ s : τ, Sink.write [] s = (.ok (), s)
  write_append : ∀ (a b : Octets) (s : τ), Sink.write (a ++ b) s =
    match Sink.write a s with
    | (.ok _, s') => Sink.write b s'
    | (.error fault, s') => (.error fault, s')

theorem LimitedSink.seamless : Sink.Seamless LimitedSink where
  write_nil := by
    rintro ⟨held, _ | room, flushFails⟩ <;> simp [Sink.write, LimitedSink.write]
  write_append := by
    rintro a b ⟨held, _ | room, flushFails⟩
    · simp [Sink.write, LimitedSink.write]
    · simp only [Sink.write, LimitedSink.write, List.length_append]
      by_cases ha : a.length ≤ room
      · -- the limit falls behind the first text, maybe in the second
        have hb : a.length + b.length ≤ room ↔ b.length ≤ room - a.length := by omega
        simp only [ha, if_true, hb, List.append_assoc, Nat.sub_sub, List.take_append, List.take_of_length_le ha]
      · have hab : ¬ a.length + b.length ≤ room := by omega
        rw [if_neg ha, if_neg hab, List.take_append_of_le_length (by omega)]

section

variable {τ : Type} [Sink τ]

/-- texts one after the other are like one text -/
theorem Sink.Seamless.writeAll_eq (k : Sink.Seamless τ) (texts : List String) (s : τ) :
    writeAll texts s = Sink.write (utf8Of (String.join texts)) s := by
  rw [utf8Of_join]
  induction texts generalizing s with
  | nil => rw [List.flatMap_nil, k.write_nil, writeAll]
  | cons text texts ih =>
    rw [List.flatMap_cons, k.write_append, writeAll]
    rcases Sink.write (utf8Of text) s with ⟨fault | ⟨⟩, s₁⟩
    · rfl
    · exact ih s₁

end

/-! ## Runs -/

section

variable {τ : Type} [Sink τ] {source : TreeSource τ} {filter : Filter} {c c₁ : source.Cursor} {w w₁ : World τ}
  {seen : List Sight} {steps : Nat}

/-- a source that gives a record leaves the output to the block -/
theorem Gives.output {s : Sight} (h : Gives source filter c w s c₁ w₁) :
    w₁.output = (writeAll (texts (selection filter [s])) w.output).2 := by
  cases h with
  | passed hn hw => rw [selection_of_not_wanted hw, World.request_output]; rfl
  | read hn hw hr => simp only [World.withBlock, World.request_output, World.process_output]

namespace Progress

/-- **A run is one write.** A run goes on behind the records that its source gives when one write of their blocks would
succeed, and counts each of them; the output is what the write leaves. When the write would fail, so does the run. -/
theorem run_of_write (k : Sink.Seamless τ) (h : GivesAll source filter c w seen c₁ w₁) (stats : RunStats) (more : Nat) :
    match Sink.write (utf8Of (blocks (selection filter seen))) w.output with
    | (.ok _, output) => w₁.output = output ∧ run filter (seen.length + more) (⟨c, stats, w⟩ : Progress source) =
        run filter more ⟨c₁, seen.foldl (RunStats.count filter) stats, w₁⟩
    | (.error fault, output) => ∃ q, q.world.output = output ∧
        run filter (seen.length + more) (⟨c, stats, w⟩ : Progress source) =
          (some (.error (.io outputLabel fault)), q) := by
  induction h generalizing stats with
  | nil =>
    have hb : utf8Of (blocks (selection filter [])) = [] := rfl
    rw [hb, k.write_nil, List.length_nil, Nat.zero_add]
    exact ⟨rfl, rfl⟩
  | @cons c c₁ c₂ w w₁ w₂ s seen hg _ ih =>
    obtain ⟨hres, hc, hw⟩ := step_of_gives (p := ⟨c, stats, w⟩) hg
    have hout := hg.output
    rw [k.writeAll_eq, join_texts] at hres hout
    rw [selection_cons, blocks_append, utf8Of_append, k.write_append, List.length_cons, Nat.add_right_comm, run]
    rcases hwrite : Sink.write (utf8Of (blocks (selection filter [s]))) w.output with ⟨fault | ⟨⟩, output⟩
    · -- the block cannot be written, and the run ends here
      rw [hwrite] at hres hout
      rw [show step filter ⟨c, stats, w⟩ = (some (.error (.io outputLabel fault)), (step filter ⟨c, stats, w⟩).2) from
        Prod.ext hres rfl]
      exact ⟨_, by rw [hw, hout], rfl⟩
    · rw [hwrite] at hres hout
      have hcount := stats_of_gives (p := ⟨c, stats, w⟩) hg hres
      have hstep : step filter ⟨c, stats, w⟩ = (none, ⟨c₁, stats.count filter s, w₁⟩) := by
        rw [← hc, ← hw, ← hcount]
        exact Prod.ext hres rfl
      have hrest := ih (stats.count filter s)
      rw [hout] at hrest
      rw [hstep]
      exact hrest

end Progress

/-- over a walk that finishes, `aggregate` is one write of the artifact, and a flush when that succeeds -/
theorem aggregate_of_write (k : Sink.Seamless τ) (h : Walk source filter w seen .finished) (hs : seen.length < steps) :
    ∃ result after, aggregate steps source filter w = some (result, after) ∧
      match Sink.write (utf8Of (blocks (selection filter seen))) w.output with
      | (.ok _, output) => after.output = (Sink.flush output).2 ∧
          result = Progress.flushResult (tally filter seen) (Sink.flush output).1
      | (.error fault, output) => after.output = output ∧ result = .error (.io outputLabel fault) := by
  obtain ⟨c₁, w₁, c₂, w₂, hg, he⟩ := h
  obtain ⟨more, rfl⟩ : ∃ more, steps = seen.length + (more + 1) := ⟨steps - seen.length - 1, by omega⟩
  have hrun := Progress.run_of_write k hg {} (more + 1)
  rw [foldl_count] at hrun
  rw [aggregate, Progress.start]
  rcases hwrite : Sink.write (utf8Of (blocks (selection filter seen))) w.output with ⟨fault | ⟨⟩, output⟩
  · rw [hwrite] at hrun
    obtain ⟨q, hq, hr⟩ := hrun
    rw [hr]
    exact ⟨_, _, rfl, hq, rfl⟩
  · rw [hwrite] at hrun
    obtain ⟨hout, hr⟩ := hrun
    obtain ⟨hres, -, hw⟩ := Progress.step_of_finished (p := ⟨c₁, tally filter seen, w₁⟩) he
    have hstep : Progress.step filter (⟨c₁, tally filter seen, w₁⟩ : Progress source) = (some _, _) := Prod.ext hres rfl
    rw [hr, Progress.run, hstep]
    refine ⟨_, _, rfl, ?_, ?_⟩
    · rw [hw, hout]
    · rw [hout]

end

/-! ## Limits -/

/-- **A limited output keeps a start of the artifact.** Let a source show the same whatever the output is, without a
failure, and let `added` be what a run of it adds to memory with no limit. Memory that has room for so many more octets
gains those of `added` that fit, and no other. The run succeeds, with the same numbers, when all of them fit and the flush
succeeds; otherwise it tells of the output. -/
theorem limited_output_keeps_start (source : TreeSource LimitedSink) (filter : Filter) (w : World LimitedSink)
    (seen : List Sight) (h : ∀ output, Walk source filter { w with output } seen .finished) (steps : Nat)
    (hs : seen.length < steps) (held : Octets) (limit : Nat) (flushFails : Bool) :
    ∃ stats whole added result part,
      aggregate steps source filter { w with output := ⟨held, none, false⟩ } = some (.ok stats, whole) ∧
      whole.output.held = held ++ added ∧
      aggregate steps source filter { w with output := ⟨held, some limit, flushFails⟩ } = some (result, part) ∧
      part.output.held = held ++ added.take (min limit added.length) ∧
      result =
        if limit < added.length then .error (.io "<output>" .sinkFull)
        else if flushFails then .error (.io "<output>" .flushFailed)
        else .ok stats := by
  obtain ⟨result, whole, hr, hw⟩ := aggregate_of_write LimitedSink.seamless (h ⟨held, none, false⟩) hs
  obtain ⟨result', part, hr', hp⟩ := aggregate_of_write LimitedSink.seamless (h ⟨held, some limit, flushFails⟩) hs
  generalize utf8Of (blocks (selection filter seen)) = added at hw hp
  obtain ⟨hwhole, rfl⟩ := hw
  refine ⟨tally filter seen, whole, added, result', part, hr, ?_, hr', ?_⟩
  · rw [hwhole]; rfl
  by_cases hl : added.length ≤ limit
  · simp only [Sink.write, LimitedSink.write, hl, if_true] at hp
    obtain ⟨hpart, rfl⟩ := hp
    refine ⟨?_, ?_⟩
    · rw [hpart, Nat.min_eq_right hl, List.take_length]; rfl
    · rw [if_neg (by omega)]
      cases flushFails <;> rfl
  · simp only [Sink.write, LimitedSink.write, hl, if_false] at hp
    obtain ⟨hpart, rfl⟩ := hp
    refine ⟨?_, ?_⟩
    · rw [hpart, Nat.min_eq_left (by omega)]
    · rw [if_pos (by omega)]; rfl

/-! The small tree into memory that already holds an octet and has room for forty more: the block of its file, which has
forty-five, is cut off behind its header. -/

theorem smallTree_cut_off :
    (∀ output, Walk (smallTree LimitedSink) pythonFilter { output } smallSeen .finished) ∧
    ∃ part, aggregate 4 (smallTree LimitedSink) pythonFilter { output := ⟨[0x78], some 40, false⟩ } =
        some (.error (.io "<output>" .sinkFull), part) ∧
      part.output.held = 0x78 :: utf8Of "# ---\n# Filename: lib/a.py\n# ---\n\nimport" := by
  have hwalk : ∀ output, Walk (smallTree LimitedSink) pythonFilter { output } smallSeen .finished :=
    fun _ => smallTree_walk _
  obtain ⟨stats, whole, added, result, part, hwhole, hadded, hpart, hheld, hresult⟩ := limited_output_keeps_start
    (smallTree LimitedSink) pythonFilter { output := .unlimited } smallSeen hwalk 4 (by decide) [0x78] 40 false
  -- with no limit the memory gains the whole block
  obtain ⟨result', whole', hwhole', -, -, -, hall⟩ := aggregate_of_walk LimitedSink.takesAll
    (w := { output := ⟨[0x78], none, false⟩ }) ⟨rfl, rfl⟩ (smallTree_walk _) (show 3 < 4 by decide)
  obtain rfl : whole = whole' := congrArg Prod.snd (Option.some_inj.1 (hwhole.symm.trans hwhole'))
  have hselected : selection pythonFilter smallSeen = [(pythonRecord, "import os")] := by decide +kernel
  obtain rfl : added = utf8Of (blocks [(pythonRecord, "import os")]) := by
    rw [← hselected]
    exact List.append_cancel_left (hadded.symm.trans hall)
  refine ⟨hwalk, part, ?_, ?_⟩
  · rw [hpart, hresult, if_pos (by decide)]
  · rw [hheld]
    decide

end ImportHarvest

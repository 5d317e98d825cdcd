import ImportHarvest.Aggregate
import ImportHarvest.Proofs.Disk
/-!
Outputs that take everything.

`Sink.Taking` says what is known of such an output: what it holds, and that each write adds what is kept of its octets at
the end. A buffered file is one: what has reached the disk and what is still in the buffer make up what it holds, nothing
else on disk changes, and nothing is kept where the null device stands. An output that keeps all that it takes is
`Sink.Unlimited`, like a file, and like a memory sink with no limit. Writing texts one after the other adds all of them
(`write_texts`).
-/

namespace ImportHarvest

open Text

/-! ## Texts one after the other -/

section

variable {τ : Type} [Sink τ]

/-- what is known of outputs that take everything: what they hold, which ones take everything, and what is kept of what
they take -/
structure Sink.Taking (τ : Type) [Sink τ] where
  held : τ → Octets
  accepts : τ → Prop
  kept : Octets → Octets
  kept_nil : kept [] = []
  kept_append : ∀ a b, kept (a ++ b) = kept a ++ kept b
  write : ∀ bs s, accepts s → ∃ s', Sink.write bs s = (.ok (), s') ∧ accepts s' ∧ held s' = held s ++ kept bs
  flush : ∀ s, accepts s → ∃ s', Sink.flush s = (.ok (), s') ∧ accepts s' ∧ held s' = held s

/-- outputs that take everything and keep all of it -/
structure Sink.Unlimited (τ : Type) [Sink τ] extends Sink.Taking τ where
  keepsAll : ∀ bs, kept bs = bs

/-- what is known of outputs that may refuse a write: what they hold as long as nothing was refused -/
structure Sink.Exact (τ : Type) [Sink τ] where
  held : τ → Octets
  sound : τ → Prop
  write : ∀ bs s s', sound s → Sink.write bs s = (.ok (), s') → sound s' ∧ held s' = held s ++ bs
  flush : ∀ s s', sound s → Sink.flush s = (.ok (), s') → sound s' ∧ held s' = held s

/-- an output that takes everything is one that refuses nothing -/
def Sink.Unlimited.exact (u : Sink.Unlimited τ) : Sink.Exact τ where
  held := u.held
  sound := u.accepts
  write := by
    intro bs s s' hs hw
    obtain ⟨s₁, hw₁, ha, hh⟩ := u.write bs s hs
    obtain rfl : s₁ = s' := congrArg Prod.snd (hw₁.symm.trans hw)
    rw [u.keepsAll] at hh
    exact ⟨ha, hh⟩
  flush := by
    intro s s' hs hf
    obtain ⟨s₁, hf₁, ha, hh⟩ := u.flush s hs
    obtain rfl : s₁ = s' := congrArg Prod.snd (hf₁.symm.trans hf)
    exact ⟨ha, hh⟩

/-- texts of which none is refused are added in order -/
theorem Sink.Exact.write_texts (u : Sink.Exact τ) {texts : List String} {s s' : τ} (hs : u.sound s)
    (h : writeAll texts s = (.ok (), s')) : u.sound s' ∧ u.held s' = u.held s ++ utf8Of (String.join texts) := by
  rw [utf8Of_join]
  induction texts generalizing s with
  | nil =>
    cases h
    exact ⟨hs, (List.append_nil _).symm⟩
  | cons text texts ih =>
    rw [writeAll] at h
    rcases hw : Sink.write (utf8Of text) s with ⟨fault | ⟨⟩, s₁⟩
    · rw [hw] at h
      cases h
    · rw [hw] at h
      obtain ⟨hs₁, hh₁⟩ := u.write _ _ _ hs hw
      obtain ⟨hs', hh'⟩ := ih hs₁ h
      refine ⟨hs', ?_⟩
      rw [hh', hh₁, List.flatMap_cons, List.append_assoc]

/-- all texts reach an output that takes everything, in order -/
theorem Sink.Taking.write_texts (u : Sink.Taking τ) (texts : List String) (s : τ) (hs : u.accepts s) :
    ∃ s', writeAll texts s = (.ok (), s') ∧ u.accepts s' ∧
      u.held s' = u.held s ++ u.kept (utf8Of (String.join texts)) := by
  rw [utf8Of_join]
  induction texts generalizing s with
  | nil => exact ⟨s, rfl, hs, by simp [u.kept_nil]⟩
  | cons text texts ih =>
    obtain ⟨s₁, hw, h₁, hh₁⟩ := u.write (utf8Of text) s hs
    obtain ⟨s₂, hw₂, h₂, hh₂⟩ := ih s₁ h₁
    refine ⟨s₂, ?_, h₂, ?_⟩
    · rw [writeAll, hw]; exact hw₂
    · rw [hh₂, hh₁, List.flatMap_cons, u.kept_append, List.append_assoc]

end

/-! ## Memory -/

/-- memory with no limit and no fault takes everything -/
def LimitedSink.takesAll : Sink.Unlimited LimitedSink where
  held := held
  accepts := fun s => s.room = none ∧ s.flushFails = false
  kept := id
  kept_nil := rfl
  kept_append := fun _ _ => rfl
  keepsAll := fun _ => rfl
  write := fun bs s h => ⟨{ s with held := s.held ++ bs }, by simp [Sink.write, write, h.1], h, rfl⟩
  flush := fun s h => ⟨s, by simp [Sink.flush, flush, h.2], h, rfl⟩

/-- memory with a limit holds what it did not refuse -/
def LimitedSink.exact : Sink.Exact LimitedSink where
  held := held
  sound := fun _ => True
  write := by
    intro bs s s' _ hw
    simp only [Sink.write, LimitedSink.write] at hw
    split at hw
    · cases hw
      exact ⟨trivial, rfl⟩
    · split at hw
      · cases hw
        exact ⟨trivial, rfl⟩
      · cases hw
  flush := by
    intro s s' _ hf
    obtain rfl : s = s' := congrArg Prod.snd hf
    exact ⟨trivial, rfl⟩

/-! ## Files -/

namespace BufferedFile

variable {d : Disk} {place : Place}

/-- what was written: what has reached the disk, and what is still in the buffer -/
def held (f : BufferedFile) : Octets := f.disk.contentAt f.place ++ f.pending

/-- a file at the place, on a disk that is as `d` everywhere else -/
def On (d : Disk) (place : Place) (f : BufferedFile) : Prop :=
  ∃ content pending, f = ⟨d.put place (.file content), place, pending⟩

theorem contentAt_put (h : d.FilePlace place) (content : Octets) :
    (d.put place (.file content)).contentAt place = content := by
  rw [Disk.contentAt, Disk.at?_put h]

theorem append_put (h : d.FilePlace place) (content more : Octets) :
    (d.put place (.file content)).append place more = d.put place (.file (content ++ more)) := by
  rw [Disk.append, contentAt_put h, Disk.store_of_filePlace (Disk.filePlace_put h content), Disk.put_put h.ne_nil]

theorem settle_on (h : d.FilePlace place) {f : BufferedFile} (hf : f.On d place) :
    f.settle.On d place ∧ f.settle.held = f.held ∧ f.settle.pending = [] := by
  obtain ⟨content, pending, rfl⟩ := hf
  cases pending with
  | nil => exact ⟨⟨content, [], rfl⟩, rfl, rfl⟩
  | cons b bs =>
    have hs : settle ⟨d.put place (.file content), place, b :: bs⟩ =
        ⟨d.put place (.file (content ++ b :: bs)), place, []⟩ := by simp [settle, append_put h]
    rw [hs]
    exact ⟨⟨_, _, rfl⟩, by simp [held, contentAt_put h], rfl⟩

theorem write_on (h : d.FilePlace place) {f : BufferedFile} (hf : f.On d place) (bs : Octets) :
    (f.write bs).On d place ∧ (f.write bs).held = f.held ++ bs := by
  -- the buffer is handed on or not; either way the file holds the same
  obtain ⟨g, hg, hheld, hnil, hw⟩ : ∃ g : BufferedFile, g.On d place ∧ g.held = f.held ∧
      (capacity ≤ bs.length → g.pending = []) ∧
      f.write bs = if capacity ≤ bs.length then { g with disk := g.disk.append g.place bs }
        else { g with pending := g.pending ++ bs } := by
    by_cases hfits : f.pending.length + bs.length ≤ capacity
    · refine ⟨f, hf, rfl, fun hbs => ?_, by rw [write, if_pos hfits]⟩
      exact List.eq_nil_of_length_eq_zero (by omega)
    · obtain ⟨hs, hh, hp⟩ := settle_on h hf
      exact ⟨f.settle, hs, hh, fun _ => hp, by rw [write, if_neg hfits]⟩
  rw [hw, ← hheld]
  obtain ⟨content, pending, rfl⟩ := hg
  split
  · rename_i hbig
    obtain rfl : pending = [] := hnil hbig
    exact ⟨⟨content ++ bs, [], by rw [append_put h]⟩, by simp [held, append_put h, contentAt_put h]⟩
  · exact ⟨⟨content, _, rfl⟩, by simp [held]⟩

/-- a file at a place for one takes everything -/
def takesAll (h : d.FilePlace place) : Sink.Unlimited BufferedFile where
  held := held
  accepts := On d place
  kept := id
  kept_nil := rfl
  kept_append := fun _ _ => rfl
  keepsAll := fun _ => rfl
  write := fun bs f hf => ⟨f.write bs, rfl, (write_on h hf bs).1, (write_on h hf bs).2⟩
  flush := fun f hf => ⟨f.settle, rfl, (settle_on h hf).1, (settle_on h hf).2.1⟩

/-- once the buffer is handed on, the disk is as before but for the file, which holds all that was written -/
theorem disk_settle (h : d.FilePlace place) {f : BufferedFile} (hf : f.On d place) :
    f.settle.disk = d.put place (.file f.held) := by
  obtain ⟨⟨content, pending, hs⟩, hheld, hnil⟩ := settle_on h hf
  rw [hs] at hheld hnil ⊢
  rw [← hheld, held, contentAt_put h, hnil, List.append_nil]

/-! ### The null device -/

theorem append_of_isDevice (h : d.IsDevice place) (more : Octets) : d.append place more = d :=
  Disk.store_of_isDevice h _

theorem settle_of_isDevice (h : d.IsDevice place) (pending : Octets) :
    settle ⟨d, place, pending⟩ = ⟨d, place, []⟩ := by
  cases pending with
  | nil => rfl
  | cons b bs => simp [settle, append_of_isDevice h]

theorem write_of_isDevice (h : d.IsDevice place) (bs pending : Octets) :
    ∃ pending', write bs ⟨d, place, pending⟩ = ⟨d, place, pending'⟩ := by
  unfold write
  by_cases hfits : pending.length + bs.length ≤ capacity
  · rw [if_pos hfits]
    split
    · exact ⟨pending, by simp only [append_of_isDevice h]⟩
    · exact ⟨_, rfl⟩
  · rw [if_neg hfits, settle_of_isDevice h]
    split
    · exact ⟨[], by simp only [append_of_isDevice h]⟩
    · exact ⟨_, rfl⟩

/-- the null device takes everything, and nothing is kept; the disk stays as it is -/
def takesNothing (h : d.IsDevice place) : Sink.Taking BufferedFile where
  held := fun _ => []
  accepts := fun f => ∃ pending, f = ⟨d, place, pending⟩
  kept := fun _ => []
  kept_nil := rfl
  kept_append := fun _ _ => rfl
  write := by
    rintro bs _ ⟨pending, rfl⟩
    obtain ⟨pending', hw⟩ := write_of_isDevice h bs pending
    exact ⟨_, rfl, ⟨pending', hw⟩, rfl⟩
  flush := by
    rintro _ ⟨pending, rfl⟩
    exact ⟨_, rfl, ⟨[], settle_of_isDevice h pending⟩, rfl⟩

/-! ### Places that can be opened -/

/-- a buffered file at a place that was just opened takes everything; once the buffer is handed on, the disk has what is
kept of all that was written there, and is else as it was -/
theorem exists_taking (h : d.Opens place) : ∃ u : Sink.Taking BufferedFile,
    u.accepts ⟨d.store place [], place, []⟩ ∧ u.held ⟨d.store place [], place, []⟩ = [] ∧
      ∀ (f : BufferedFile) (written : Octets), u.accepts f → u.held f = u.kept written →
        f.settle.disk = d.store place written := by
  rcases h with hf | hd
  · refine ⟨(takesAll hf).toTaking, ⟨[], [], by rw [Disk.store_of_filePlace hf]⟩, ?_, ?_⟩
    · rw [Disk.store_of_filePlace hf]
      exact (List.append_nil _).trans (contentAt_put hf [])
    · intro f written hon hheld
      rw [disk_settle hf hon, Disk.store_of_filePlace hf]
      exact congrArg (fun content => d.put place (.file content)) hheld
  · refine ⟨takesNothing hd, ⟨[], by rw [Disk.store_of_isDevice hd]⟩, rfl, ?_⟩
    rintro _ written ⟨pending, rfl⟩ -
    rw [settle_of_isDevice hd, Disk.store_of_isDevice hd]

end BufferedFile

end ImportHarvest

import ImportHarvest.Proofs.Encodings
import ImportHarvest.Text.Pieces
import Mathlib.Tactic.SplitIfs
/-!
What is kept of octets that are not all well-formed.

The octets fall into their parts, one after the other, and a part has either the octets of its character or octets beyond
ASCII that are dropped (`madeOf_utf8Parts`). So the octets of the text that is read are a subsequence of what was there,
with every ASCII octet in it. A part ends at the latest before an octet that starts another, so what stands in front of
a well-formed character is read as if nothing followed (`utf8Parts_append`), and what stands behind it as if it came first
(`utf8Parts_utf8_append`): ill-formed octets take nothing away from their neighbours (`illFormed_octets_alone_are_lost`).
-/

namespace ImportHarvest.Text

/-! ## Lead octets -/

/-- what is known of an octet and of the octet behind it when it starts a sequence of this kind -/
def Lead.Bounds (b : UInt8) : Lead → Prop
  | .one => b.toNat < 0x80
  | .two => 0xC2 ≤ b.toNat ∧ b.toNat < 0xE0
  | .three low high =>
    (0xE0 ≤ b.toNat ∧ b.toNat < 0xF0) ∧ (0x80 ≤ low.toNat ∧ high.toNat ≤ 0xBF) ∧
      (b.toNat = 0xE0 → 0xA0 ≤ low.toNat) ∧ (b.toNat = 0xED → high.toNat ≤ 0x9F)
  | .four low high =>
    (0xF0 ≤ b.toNat ∧ b.toNat < 0xF5) ∧ (0x80 ≤ low.toNat ∧ high.toNat ≤ 0xBF) ∧
      (b.toNat = 0xF0 → 0x90 ≤ low.toNat) ∧ (b.toNat = 0xF4 → high.toNat ≤ 0x8F)
  | .none => 0x80 ≤ b.toNat

theorem Lead.bounds_of (b : UInt8) : (Lead.of b).Bounds b := by
  unfold Lead.of
  simp only [UInt8.lt_iff_toNat_lt, ← UInt8.toNat_inj]
  split_ifs <;> simp_all [Lead.Bounds]
  all_goals omega

theorem isTail_iff {b : UInt8} : isTail b = true ↔ 0x80 ≤ b.toNat ∧ b.toNat ≤ 0xBF := by
  simp [isTail, UInt8.le_iff_toNat_le]

/-- the octets of a character by its code point -/
theorem utf8EncodeChar_ofNat {v : Nat} (hv : v.isValidChar) :
    String.utf8EncodeChar (Char.ofNat v) =
      if v ≤ 0x7F then [UInt8.ofNat v]
      else if v ≤ 0x7FF then [UInt8.ofNat (v / 0x40 % 0x20 + 0xC0), UInt8.ofNat (v % 0x40 + 0x80)]
      else if v ≤ 0xFFFF then
        [UInt8.ofNat (v / 0x1000 % 0x10 + 0xE0), UInt8.ofNat (v / 0x40 % 0x40 + 0x80), UInt8.ofNat (v % 0x40 + 0x80)]
      else
        [UInt8.ofNat (v / 0x40000 % 8 + 0xF0), UInt8.ofNat (v / 0x1000 % 0x40 + 0x80),
          UInt8.ofNat (v / 0x40 % 0x40 + 0x80), UInt8.ofNat (v % 0x40 + 0x80)] := by
  have hval : (Char.ofNat v).val.toNat = v := by
    rw [Char.ofNat, dif_pos hv]
    rfl
  simp only [String.utf8EncodeChar, hval]

theorem ofNat_eq_of_toNat {n : Nat} {b : UInt8} (h : n = b.toNat) : UInt8.ofNat n = b := by
  rw [h, UInt8.ofNat_toNat]

/-! ## Parts and their octets -/

/-- a part and the octets that belong to it: those of its character, or octets beyond ASCII that are dropped -/
inductive PartOf : Octets → Part → Prop where
  | char (c : Char) : PartOf (String.utf8EncodeChar c) (some c)
  | dropped {bs : Octets} : (∀ b ∈ bs, 0x80 ≤ b.toNat) → PartOf bs none

theorem PartOf.char_of_eq {bs : Octets} {v : Nat} (h : String.utf8EncodeChar (Char.ofNat v) = bs) :
    PartOf bs (some (Char.ofNat v)) := h ▸ .char _

theorem partOf_two {b c : UInt8} (hb : Lead.two.Bounds b) (hc : isTail c = true) :
    PartOf [b, c] (some (Char.ofNat (b.toNat % 0x20 * 0x40 + tailBits c))) := by
  obtain ⟨hlow, hhigh⟩ := hb
  have ht := isTail_iff.1 hc
  unfold tailBits
  apply PartOf.char_of_eq
  rw [utf8EncodeChar_ofNat (by unfold Nat.isValidChar; omega), if_neg (by omega), if_pos (by omega),
    ofNat_eq_of_toNat (b := b) (by omega), ofNat_eq_of_toNat (b := c) (by omega)]

theorem partOf_three {b c d low high : UInt8} (hb : (Lead.three low high).Bounds b) (hc : low ≤ c ∧ c ≤ high)
    (hd : isTail d = true) :
    PartOf [b, c, d] (some (Char.ofNat ((b.toNat % 0x10 * 0x40 + tailBits c) * 0x40 + tailBits d))) := by
  obtain ⟨⟨hlow, hhigh⟩, ⟨hl, hh⟩, hfirst, hsurrogate⟩ := hb
  have htc : low.toNat ≤ c.toNat ∧ c.toNat ≤ high.toNat := hc
  have htd := isTail_iff.1 hd
  unfold tailBits
  apply PartOf.char_of_eq
  rw [utf8EncodeChar_ofNat (by unfold Nat.isValidChar; omega), if_neg (by omega), if_neg (by omega), if_pos (by omega),
    ofNat_eq_of_toNat (b := b) (by omega), ofNat_eq_of_toNat (b := c) (by omega), ofNat_eq_of_toNat (b := d) (by omega)]

theorem partOf_four {b c d e low high : UInt8} (hb : (Lead.four low high).Bounds b) (hc : low ≤ c ∧ c ≤ high)
    (hd : isTail d = true) (he : isTail e = true) :
    PartOf [b, c, d, e]
      (some (Char.ofNat (((b.toNat % 8 * 0x40 + tailBits c) * 0x40 + tailBits d) * 0x40 + tailBits e))) := by
  obtain ⟨⟨hlow, hhigh⟩, ⟨hl, hh⟩, hfirst, hlast⟩ := hb
  have htc : low.toNat ≤ c.toNat ∧ c.toNat ≤ high.toNat := hc
  have htd := isTail_iff.1 hd
  have hte := isTail_iff.1 he
  unfold tailBits
  apply PartOf.char_of_eq
  rw [utf8EncodeChar_ofNat (by unfold Nat.isValidChar; omega), if_neg (by omega), if_neg (by omega), if_neg (by omega),
    ofNat_eq_of_toNat (b := b) (by omega), ofNat_eq_of_toNat (b := c) (by omega), ofNat_eq_of_toNat (b := d) (by omega),
    ofNat_eq_of_toNat (b := e) (by omega)]

/-! ## The octets behind a lead octet -/

/-- what the octets behind a lead octet have to be, one after the other -/
def Lead.tests : Lead → List (UInt8 → Bool)
  | .one => []
  | .two => [isTail]
  | .three low high => [fun c => low ≤ c && c ≤ high, isTail]
  | .four low high => [fun c => low ≤ c && c ≤ high, isTail, isTail]
  | .none => []

/-- the octets that pass, up to the first that does not -/
def passing : List (UInt8 → Bool) → Octets → Octets
  | test :: tests, c :: cs => if test c then c :: passing tests cs else []
  | _, _ => []

/-- the character of a lead octet and the octets behind it, when there are as many as it asks for -/
def Lead.part (b : UInt8) : Lead → Octets → Part
  | .one, [] => some (Char.ofNat b.toNat)
  | .two, [c] => some (Char.ofNat (b.toNat % 0x20 * 0x40 + tailBits c))
  | .three _ _, [c, d] => some (Char.ofNat ((b.toNat % 0x10 * 0x40 + tailBits c) * 0x40 + tailBits d))
  | .four _ _, [c, d, e] =>
    some (Char.ofNat (((b.toNat % 8 * 0x40 + tailBits c) * 0x40 + tailBits d) * 0x40 + tailBits e))
  | _, _ => Option.none

/-- **A part takes up the octets that pass**, and is a character when all that its lead octet asks for do -/
theorem partAt_eq_passing (b : UInt8) (rest : Octets) :
    partAt b rest = ((Lead.of b).part b (passing (Lead.of b).tests rest), (passing (Lead.of b).tests rest).length) := by
  unfold partAt
  cases Lead.of b with
  | one => rfl
  | none => rfl
  | two =>
    rcases rest with _ | ⟨c, rest⟩
    · rfl
    · simp only [Lead.tests, passing]
      split_ifs <;> rfl
  | three low high =>
    rcases rest with _ | ⟨c, _ | ⟨d, rest⟩⟩
    · rfl
    · simp only [Lead.tests, passing]
      split_ifs <;> rfl
    · simp only [Lead.tests, passing, Bool.not_eq_true']
      split_ifs <;> simp_all [Lead.part]
  | four low high =>
    rcases rest with _ | ⟨c, _ | ⟨d, _ | ⟨e, rest⟩⟩⟩
    · rfl
    · simp only [Lead.tests, passing]
      split_ifs <;> rfl
    · simp only [Lead.tests, passing, Bool.not_eq_true']
      split_ifs <;> simp_all [Lead.part]
    · simp only [Lead.tests, passing, Bool.not_eq_true']
      split_ifs <;> simp_all [Lead.part]

/-- these octets pass these tests, one after the other; there may be more tests -/
inductive Pass : List (UInt8 → Bool) → Octets → Prop where
  | nil {tests : List (UInt8 → Bool)} : Pass tests []
  | cons {test : UInt8 → Bool} {tests : List (UInt8 → Bool)} {c : UInt8} {cs : Octets} :
    test c = true → Pass tests cs → Pass (test :: tests) (c :: cs)

theorem pass_passing (tests : List (UInt8 → Bool)) (rest : Octets) : Pass tests (passing tests rest) := by
  induction tests generalizing rest with
  | nil => exact .nil
  | cons test tests ih =>
    cases rest with
    | nil => exact .nil
    | cons c rest =>
      unfold passing
      split_ifs with hc
      · exact .cons hc (ih rest)
      · exact .nil

/-- the octets that pass stand at the start -/
theorem passing_eq_take (tests : List (UInt8 → Bool)) (rest : Octets) :
    rest.take (passing tests rest).length = passing tests rest := by
  induction tests generalizing rest with
  | nil => rfl
  | cons test tests ih =>
    cases rest with
    | nil => rfl
    | cons c rest =>
      unfold passing
      split_ifs
      · simp [ih rest]
      · rfl

theorem length_passing_le (tests : List (UInt8 → Bool)) (rest : Octets) :
    (passing tests rest).length ≤ rest.length := by
  rw [← passing_eq_take]
  exact List.length_take_le' _ _

/-- tests that only continuation octets pass -/
def OfTails (tests : List (UInt8 → Bool)) : Prop := ∀ test ∈ tests, ∀ c, test c = true → isTail c = true

theorem Lead.ofTails_tests {b : UInt8} {lead : Lead} (hb : lead.Bounds b) : OfTails lead.tests := by
  have hrange : ∀ {low high : UInt8}, 0x80 ≤ low.toNat ∧ high.toNat ≤ 0xBF →
      ∀ c : UInt8, (decide (low ≤ c) && decide (c ≤ high)) = true → isTail c = true := by
    intro low high hbounds c hc
    simp only [Bool.and_eq_true, decide_eq_true_eq, UInt8.le_iff_toNat_le] at hc
    exact isTail_iff.2 ⟨Nat.le_trans hbounds.1 hc.1, Nat.le_trans hc.2 hbounds.2⟩
  cases lead with
  | one => simp [OfTails, tests]
  | none => simp [OfTails, tests]
  | two => simp [OfTails, tests]
  | three low high => simpa [OfTails, tests] using hrange hb.2.1
  | four low high => simpa [OfTails, tests] using hrange hb.2.1

theorem Pass.isTail {tests : List (UInt8 → Bool)} {cs : Octets} (h : Pass tests cs) (ht : OfTails tests) :
    ∀ c ∈ cs, isTail c = true := by
  induction h with
  | nil => simp
  | cons hc _ ih =>
    obtain ⟨htest, htests⟩ := List.forall_mem_cons.1 ht
    exact List.forall_mem_cons.2 ⟨htest _ hc, ih htests⟩

/-- an octet that continues nothing ends what passes -/
theorem passing_append {tests : List (UInt8 → Bool)} (ht : OfTails tests) (rest : Octets) {next : Octets}
    (hn : ∀ c ∈ next.head?, isTail c = false) : passing tests (rest ++ next) = passing tests rest := by
  induction tests generalizing rest with
  | nil => simp [passing]
  | cons test tests ih =>
    obtain ⟨htest, htests⟩ := List.forall_mem_cons.1 ht
    cases rest with
    | nil =>
      cases next with
      | nil => rfl
      | cons c next =>
        have hc : isTail c = false := hn c rfl
        have hfail : test c ≠ true := fun h => by simp [htest c h] at hc
        simp [passing, hfail]
    | cons c rest => simp only [List.cons_append, passing, ih htests]

/-! ## All parts -/

/-- only an ASCII octet starts nothing but itself -/
theorem Lead.Bounds.beyond_ascii {b : UInt8} {lead : Lead} (hb : lead.Bounds b) (hone : lead ≠ .one) :
    0x80 ≤ b.toNat := by
  cases lead with
  | one => exact absurd rfl hone
  | none => exact hb
  | two => exact Nat.le_trans (by decide) hb.1
  | three low high => exact Nat.le_trans (by decide) hb.1.1
  | four low high => exact Nat.le_trans (by decide) hb.1.1

theorem partOf_part {b : UInt8} {lead : Lead} {cs : Octets} (hb : lead.Bounds b) (hcs : Pass lead.tests cs) :
    PartOf (b :: cs) (lead.part b cs) := by
  unfold Lead.part
  split
  · have hlow : b.toNat < 0x80 := hb
    apply PartOf.char_of_eq
    rw [utf8EncodeChar_ofNat (by unfold Nat.isValidChar; omega), if_pos (by omega), UInt8.ofNat_toNat]
  · rcases hcs with _ | ⟨hc, -⟩
    exact partOf_two hb hc
  · rcases hcs with _ | ⟨hc, _ | ⟨hd, -⟩⟩
    exact partOf_three hb (by simpa using hc) hd
  · rcases hcs with _ | ⟨hc, _ | ⟨hd, _ | ⟨he, -⟩⟩⟩
    exact partOf_four hb (by simpa using hc) hd he
  · rename_i hone _ _ _
    have hlead : lead ≠ .one := by
      rintro rfl
      cases hcs
      exact hone rfl rfl
    refine .dropped (List.forall_mem_cons.2 ⟨hb.beyond_ascii hlead, fun c hc => ?_⟩)
    exact (isTail_iff.1 (hcs.isTail (Lead.ofTails_tests hb) c hc)).1

/-- **What the first part is made of**: the octet it starts with and those that it takes up behind it -/
theorem partOf_partAt (b : UInt8) (rest : Octets) :
    PartOf (b :: rest.take (partAt b rest).2) (partAt b rest).1 := by
  rw [partAt_eq_passing]
  simp only [passing_eq_take]
  exact partOf_part (Lead.bounds_of b) (pass_passing _ _)

/-- octets that fall into these parts, one after the other -/
inductive MadeOf : Octets → List Part → Prop where
  | nil : MadeOf [] []
  | cons {piece rest : Octets} {part : Part} {parts : List Part} :
    PartOf piece part → MadeOf rest parts → MadeOf (piece ++ rest) (part :: parts)

/-- **Octets are made of their parts** -/
theorem madeOf_utf8Parts (bs : Octets) : MadeOf bs (utf8Parts bs) := by
  match bs with
  | [] =>
    rw [utf8Parts]
    exact .nil
  | b :: rest =>
    have hlt : (rest.drop (partAt b rest).2).length < rest.length + 1 := by
      rw [List.length_drop]
      omega
    have h := MadeOf.cons (partOf_partAt b rest) (madeOf_utf8Parts (rest.drop (partAt b rest).2))
    rw [List.cons_append, List.take_append_drop] at h
    rw [utf8Parts]
    exact h
termination_by bs.length

/-! ## What is kept -/

/-- the octets of the text that parts hold -/
theorem utf8_filterMap_cons (part : Part) (parts : List Part) :
    utf8 ((part :: parts).filterMap id) = part.toList.flatMap String.utf8EncodeChar ++ utf8 (parts.filterMap id) := by
  cases part with
  | none => simp
  | some c => simp [utf8]

/-- the text of parts is a subsequence of their octets -/
theorem MadeOf.sublist {bs : Octets} {parts : List Part} (h : MadeOf bs parts) :
    (utf8 (parts.filterMap id)).Sublist bs := by
  induction h with
  | nil => exact .slnil
  | @cons piece rest part parts hpart _ ih =>
    rw [utf8_filterMap_cons]
    cases hpart with
    | char c => simpa using ih
    | dropped hbs => exact ih.trans (List.sublist_append_right _ _)

/-- an octet that is a character by itself -/
def isAscii (b : UInt8) : Bool := b < 0x80

/-- the text of parts has all their ASCII octets -/
theorem MadeOf.ascii {bs : Octets} {parts : List Part} (h : MadeOf bs parts) :
    (utf8 (parts.filterMap id)).filter isAscii = bs.filter isAscii := by
  induction h with
  | nil => rfl
  | @cons piece rest part parts hpart _ ih =>
    rw [utf8_filterMap_cons, List.filter_append, List.filter_append, ih]
    cases hpart with
    | char c => simp
    | dropped hbs =>
      have hnone : piece.filter isAscii = [] := by
        apply List.filter_eq_nil_iff.2
        intro b hb
        simpa [isAscii, UInt8.lt_iff_toNat_lt] using hbs b hb
      simp [hnone]

/-! ## Neighbours -/

/-- an octet that continues nothing is left out of the part before it -/
theorem partAt_append (b : UInt8) (rest : Octets) {next : Octets} (hn : ∀ c ∈ next.head?, isTail c = false) :
    partAt b (rest ++ next) = partAt b rest := by
  rw [partAt_eq_passing, partAt_eq_passing, passing_append (Lead.ofTails_tests (Lead.bounds_of b)) rest hn]

theorem taken_le_rest (b : UInt8) (rest : Octets) : (partAt b rest).2 ≤ rest.length := by
  rw [partAt_eq_passing]
  exact length_passing_le _ _

/-- **Octets end before one that continues nothing**: what stands in front of it is read by itself -/
theorem utf8Parts_append (bs : Octets) {next : Octets} (hn : ∀ c ∈ next.head?, isTail c = false) :
    utf8Parts (bs ++ next) = utf8Parts bs ++ utf8Parts next := by
  match bs with
  | [] =>
    rw [utf8Parts]
    rfl
  | b :: rest =>
    have hlt : (rest.drop (partAt b rest).2).length < rest.length + 1 := by
      rw [List.length_drop]
      omega
    rw [List.cons_append, utf8Parts, utf8Parts, partAt_append b rest hn, List.drop_append_of_le_length (taken_le_rest b rest),
      utf8Parts_append (rest.drop (partAt b rest).2) hn, List.cons_append]
termination_by bs.length

theorem utf8Dropping_append (bs : Octets) {next : Octets} (hn : ∀ c ∈ next.head?, isTail c = false) :
    utf8Dropping (bs ++ next) = utf8Dropping bs ++ utf8Dropping next := by
  rw [utf8Dropping, utf8Parts_append bs hn, List.filterMap_append]
  rfl

theorem utf8Dropping_utf8_append (cs : List Char) (rest : Octets) :
    utf8Dropping (utf8 cs ++ rest) = cs ++ utf8Dropping rest := by
  rw [utf8Dropping, utf8Parts_utf8_append, List.filterMap_append, List.filterMap_map]
  exact congrArg (· ++ utf8Dropping rest) List.filterMap_some

/-- a continuation octet starts nothing -/
theorem partAt_of_tail {b : UInt8} (h : isTail b = true) (rest : Octets) : partAt b rest = (none, 0) := by
  obtain ⟨hlow, hhigh⟩ := isTail_iff.1 h
  have hof : Lead.of b = .none := by
    rw [Lead.of, if_neg (by rw [UInt8.lt_iff_toNat_lt]; exact Nat.not_lt.2 hlow),
      if_pos (by rw [UInt8.lt_iff_toNat_lt]; exact Nat.lt_of_le_of_lt hhigh (by decide))]
  unfold partAt
  rw [hof]

/-- the octets of a character start with one that continues nothing -/
theorem head_utf8 {cs : List Char} (hcs : cs ≠ []) (rest : Octets) :
    ∀ b ∈ (utf8 cs ++ rest).head?, isTail b = false := by
  obtain ⟨c, cs, rfl⟩ := List.exists_cons_of_ne_nil hcs
  obtain ⟨b, bs, he, hp⟩ := partAt_utf8EncodeChar c []
  have hhead : (utf8 (c :: cs) ++ rest).head? = some b := by simp [utf8, he]
  intro b' hb'
  rw [hhead] at hb'
  obtain rfl := Option.some_inj.1 hb'
  cases ht : isTail b with
  | false => rfl
  | true =>
    rw [partAt_of_tail ht] at hp
    cases hp

/-- **A text keeps to itself**: whatever octets stand on its two sides, it is read as it is, and they are read as if
each stood alone -/
theorem utf8Dropping_around {text : List Char} (h : text ≠ []) (before after : Octets) :
    utf8Dropping (before ++ utf8 text ++ after) = utf8Dropping before ++ text ++ utf8Dropping after := by
  rw [List.append_assoc, utf8Dropping_append before (head_utf8 h after), utf8Dropping_utf8_append, List.append_assoc]

/-- a text on either side of any octets, of which either may be empty -/
theorem utf8Dropping_between (a b : List Char) (bs : Octets) :
    utf8Dropping (utf8 a ++ bs ++ utf8 b) = a ++ utf8Dropping bs ++ b := by
  rw [List.append_assoc, utf8Dropping_utf8_append, List.append_assoc]
  by_cases hb : b = []
  · rw [hb]
    simp [utf8]
  · have h := utf8Dropping_around hb bs []
    rw [List.append_nil, show utf8Dropping [] = [] from by rw [utf8Dropping, utf8Parts]; rfl, List.append_nil] at h
    rw [h]

/-! ## Files -/

/-- the octets without the mark of UTF-8, if they start with one -/
def withoutMark (bs : Octets) : Octets := (dropStart? Encoding.utf8.mark bs).getD bs

theorem withoutMark_of_not_mark {bs : Octets} (h : ¬ Encoding.utf8.mark <+: bs) : withoutMark bs = bs := by
  unfold withoutMark
  cases hd : dropStart? Encoding.utf8.mark bs with
  | none => rfl
  | some rest => exact absurd ⟨rest, dropStart?_eq_some.1 hd⟩ h

/-- octets that start with no mark of UTF-16 are read as UTF-8 without their mark -/
theorem decodeChars_of_utf8 {bs : Octets} (h : ∀ order, ¬ (Encoding.utf16 order).mark <+: bs) :
    decodeChars bs = utf8Dropping (withoutMark bs) := by
  by_cases hm : Encoding.utf8.mark <+: bs
  · obtain ⟨rest, rfl⟩ := hm
    have hrest : withoutMark (Encoding.utf8.mark ++ rest) = rest := by
      rw [withoutMark, dropStart?_eq_some.2 rfl, Option.getD_some]
    rw [decodeChars, splitMark_append, hrest]
  · have hsplit : splitMark bs = (.utf8, bs) := by
      unfold splitMark
      split
      · exact absurd ⟨_, rfl⟩ hm
      · exact absurd ⟨_, rfl⟩ (h .little)
      · exact absurd ⟨_, rfl⟩ (h .big)
      · rfl
    rw [decodeChars, hsplit, withoutMark_of_not_mark hm]

/-- **Only ill-formed octets are lost.** Octets that start with no mark of UTF-16 are read, without a mark of UTF-8 at
their start, to a text whose octets are a subsequence of them and hold every ASCII octet of them, in order. Between two
texts, either of which may be empty, octets are read as if they stood alone, and the texts as they are, when all
together start with no mark. The same is so the other way round: a text is read as it is between any octets, which are
read as if each stood alone. -/
theorem illFormed_octets_alone_are_lost :
    (∀ bs : Octets, (∀ order, ¬ (Encoding.utf16 order).mark <+: bs) →
      (utf8Of (decode bs)).Sublist (withoutMark bs) ∧
        (utf8Of (decode bs)).filter isAscii = (withoutMark bs).filter isAscii) ∧
      (∀ (a b : String) (bs : Octets), (∀ e : Encoding, ¬ e.mark <+: utf8Of a ++ bs ++ utf8Of b) →
        decode (utf8Of a ++ bs ++ utf8Of b) = a ++ String.ofList (utf8Dropping bs) ++ b) ∧
      ∀ (text : String) (before after : Octets), text ≠ "" →
        utf8Dropping (before ++ utf8Of text ++ after) = utf8Dropping before ++ text.toList ++ utf8Dropping after := by
  refine ⟨?_, ?_, ?_⟩
  · intro bs h
    have hread : utf8Of (decode bs) = utf8 (utf8Dropping (withoutMark bs)) := by
      rw [decode, decodeChars_of_utf8 h, utf8Of, String.toList_ofList]
    rw [hread]
    have hparts := madeOf_utf8Parts (withoutMark bs)
    exact ⟨hparts.sublist, hparts.ascii⟩
  · intro a b bs h
    have hread : decodeChars (utf8Of a ++ bs ++ utf8Of b) = a.toList ++ utf8Dropping bs ++ b.toList := by
      rw [decodeChars_of_utf8 fun order => h (.utf16 order), withoutMark_of_not_mark (h .utf8)]
      exact utf8Dropping_between a.toList b.toList bs
    rw [decode, hread, String.ofList_append, String.ofList_append, String.ofList_toList, String.ofList_toList]
  · intro text before after h
    apply utf8Dropping_around
    intro hempty
    exact h (String.toList_eq_nil_iff.1 hempty)

/-- a euro sign that breaks off before a line feed, and an overlong form of a line feed: only their octets are lost -/
theorem brokenEuro_alone_is_lost :
    (utf8Of (decode [0x61, 0xE2, 0x82, 0x0A, 0xC0, 0x8A, 0x62])).Sublist [0x61, 0xE2, 0x82, 0x0A, 0xC0, 0x8A, 0x62] ∧
      decode (utf8Of "é" ++ [0xE2, 0x82] ++ utf8Of "\nimport os") = "é\nimport os" ∧
      utf8Dropping ([0xE2, 0x82] ++ utf8Of "€" ++ [0xAC]) = ['€'] := by
  obtain ⟨hkept, hbetween, haround⟩ := illFormed_octets_alone_are_lost
  have hbroken : utf8Dropping [0xE2, 0x82] = [] := by decide +kernel
  have htail : utf8Dropping [0xAC] = [] := by decide +kernel
  refine ⟨?_, ?_, ?_⟩
  · have hmark : ∀ order, ¬ (Encoding.utf16 order).mark <+: [0x61, 0xE2, 0x82, 0x0A, 0xC0, 0x8A, 0x62] := by
      intro order
      cases order <;> decide
    exact (hkept _ hmark).1
  · have hmark : ∀ e : Encoding, ¬ e.mark <+: utf8Of "é" ++ [0xE2, 0x82] ++ utf8Of "\nimport os" := by
      intro e
      cases e with
      | utf8 => decide
      | utf16 order => cases order <;> decide
    rw [hbetween "é" "\nimport os" [0xE2, 0x82] hmark, hbroken]
    rfl
  · rw [haround "€" [0xE2, 0x82] [0xAC] (by decide), hbroken, htail]
    rfl

end ImportHarvest.Text

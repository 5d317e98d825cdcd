import ImportHarvest.Text.Decode
import ImportHarvest.Text.Pieces
/-!
A text is read back from its own octets.

The octets of a character are one part, and that part is the character (`partAt_utf8EncodeChar`): the lead octet is in
the row for its length, and where the row narrows what may follow directly, the character is none of those that are left
out. So the parts of a text's octets are its characters, one by one, and a reader that drops ill-formed octets drops
nothing. Only a byte order mark at its start keeps a text from being decoded as it is (`decode_utf8Of`).
-/

namespace ImportHarvest.Text

/-! ## Octets by their payload -/

theorem Lead.of_one : ∀ n < 0x80, Lead.of (UInt8.ofNat n) = .one := by decide

theorem Lead.of_two : ∀ n < 0x20, 2 ≤ n → Lead.of (UInt8.ofNat (n + 0xC0)) = .two := by decide

/-- what may follow a lead octet of three directly: nothing overlong, and no surrogate -/
theorem Lead.of_three : ∀ n < 0x10, Lead.of (UInt8.ofNat (n + 0xE0)) =
    .three (UInt8.ofNat ((if n = 0 then 0x20 else 0) + 0x80)) (UInt8.ofNat ((if n = 13 then 0x1F else 0x3F) + 0x80)) := by
  decide

/-- what may follow a lead octet of four directly: nothing overlong, and nothing above U+10FFFF -/
theorem Lead.of_four : ∀ n < 5, Lead.of (UInt8.ofNat (n + 0xF0)) =
    .four (UInt8.ofNat ((if n = 0 then 0x10 else 0) + 0x80)) (UInt8.ofNat ((if n = 4 then 0xF else 0x3F) + 0x80)) := by
  decide

theorem isTail_payload : ∀ n < 0x40, isTail (UInt8.ofNat (n + 0x80)) = true := by decide

theorem tailBits_payload : ∀ n < 0x40, tailBits (UInt8.ofNat (n + 0x80)) = n := by decide

theorem toNat_ofNat {n : Nat} (h : n < 0x100) : (UInt8.ofNat n).toNat = n := UInt8.toNat_ofNat_of_lt' h

theorem payload_le {m n : Nat} (hm : m < 0x40) (hn : n < 0x40) (h : m ≤ n) :
    UInt8.ofNat (m + 0x80) ≤ UInt8.ofNat (n + 0x80) := by
  rw [UInt8.le_iff_toNat_le, toNat_ofNat (by omega), toNat_ofNat (by omega)]
  omega

/-! ## Parts -/

section

variable (rest : Octets)

theorem partAt_one {n : Nat} (h : n < 0x80) : partAt (UInt8.ofNat n) rest = (some (Char.ofNat n), 0) := by
  unfold partAt
  rw [Lead.of_one n h]
  dsimp only
  rw [toNat_ofNat (by omega)]

theorem partAt_two {a b : Nat} (ha : a < 0x20) (h : 2 ≤ a) (hb : b < 0x40) :
    partAt (UInt8.ofNat (a + 0xC0)) (UInt8.ofNat (b + 0x80) :: rest) = (some (Char.ofNat (a * 0x40 + b)), 1) := by
  have hbits : (UInt8.ofNat (a + 0xC0)).toNat % 0x20 = a := by rw [toNat_ofNat (by omega)]; omega
  rw [partAt, Lead.of_two a ha h]
  dsimp only
  rw [if_pos (isTail_payload b hb), hbits, tailBits_payload b hb]

theorem partAt_three {a b c : Nat} (ha : a < 0x10) (hb : b < 0x40) (hc : c < 0x40) (hlow : a = 0 → 0x20 ≤ b)
    (hhigh : a = 13 → b ≤ 0x1F) :
    partAt (UInt8.ofNat (a + 0xE0)) (UInt8.ofNat (b + 0x80) :: UInt8.ofNat (c + 0x80) :: rest) =
      (some (Char.ofNat ((a * 0x40 + b) * 0x40 + c)), 2) := by
  have hbits : (UInt8.ofNat (a + 0xE0)).toNat % 0x10 = a := by rw [toNat_ofNat (by omega)]; omega
  have hl := payload_le (m := if a = 0 then 0x20 else 0) (n := b) (by split <;> omega) hb (by split <;> omega)
  have hh := payload_le (m := b) (n := if a = 13 then 0x1F else 0x3F) hb (by split <;> omega) (by split <;> omega)
  rw [partAt, Lead.of_three a ha]
  dsimp only
  rw [if_neg (by simp only [hl, hh, decide_true, Bool.and_self, Bool.not_true, Bool.false_eq_true, not_false_iff]),
    if_neg (by rw [isTail_payload c hc]; decide), hbits, tailBits_payload b hb,
    tailBits_payload c hc]

theorem partAt_four {a b c d : Nat} (ha : a < 5) (hb : b < 0x40) (hc : c < 0x40) (hd : d < 0x40)
    (hlow : a = 0 → 0x10 ≤ b) (hhigh : a = 4 → b ≤ 0xF) :
    partAt (UInt8.ofNat (a + 0xF0))
        (UInt8.ofNat (b + 0x80) :: UInt8.ofNat (c + 0x80) :: UInt8.ofNat (d + 0x80) :: rest) =
      (some (Char.ofNat (((a * 0x40 + b) * 0x40 + c) * 0x40 + d)), 3) := by
  have hbits : (UInt8.ofNat (a + 0xF0)).toNat % 8 = a := by rw [toNat_ofNat (by omega)]; omega
  have hl := payload_le (m := if a = 0 then 0x10 else 0) (n := b) (by split <;> omega) hb (by split <;> omega)
  have hh := payload_le (m := b) (n := if a = 4 then 0xF else 0x3F) hb (by split <;> omega) (by split <;> omega)
  rw [partAt, Lead.of_four a ha]
  dsimp only
  rw [if_neg (by simp only [hl, hh, decide_true, Bool.and_self, Bool.not_true, Bool.false_eq_true, not_false_iff]),
    if_neg (by rw [isTail_payload c hc]; decide), if_neg (by rw [isTail_payload d hd]; decide), hbits,
    tailBits_payload b hb, tailBits_payload c hc, tailBits_payload d hd]

end

/-- the octets of a character are one part, which is the character -/
theorem partAt_utf8EncodeChar (c : Char) (rest : Octets) :
    ∃ b bs, String.utf8EncodeChar c = b :: bs ∧ partAt b (bs ++ rest) = (some c, bs.length) := by
  have hv : c.toNat < 0xD800 ∨ 0xDFFF < c.toNat ∧ c.toNat < 0x110000 := c.valid
  have hc (n : Nat) (hn : n = c.toNat) : Char.ofNat n = c := by rw [hn, Char.ofNat_toNat]
  have hval : c.val.toNat = c.toNat := rfl
  unfold String.utf8EncodeChar
  dsimp only
  rw [hval]
  -- one case for each length; that `c` is no surrogate and not too large is what the narrow rows ask for
  split
  · refine ⟨_, _, rfl, ?_⟩
    rw [List.nil_append, partAt_one rest (by omega), hc _ rfl]
    rfl
  · split
    · refine ⟨_, _, rfl, ?_⟩
      rw [List.singleton_append, partAt_two rest (by omega) (by omega) (by omega), hc _ (by omega)]
      rfl
    · split
      · refine ⟨_, _, rfl, ?_⟩
        rw [List.cons_append, List.singleton_append,
          partAt_three rest (by omega) (by omega) (by omega) (by omega) (by omega), hc _ (by omega)]
        rfl
      · refine ⟨_, _, rfl, ?_⟩
        rw [List.cons_append, List.cons_append, List.singleton_append,
          partAt_four rest (by omega) (by omega) (by omega) (by omega) (by omega) (by omega), hc _ (by omega)]
        rfl

/-! ## Texts -/

/-- the octets of a text are its characters, whatever follows them -/
theorem utf8Parts_utf8_append (cs : List Char) (rest : Octets) :
    utf8Parts (utf8 cs ++ rest) = cs.map some ++ utf8Parts rest := by
  induction cs with
  | nil => rfl
  | cons c cs ih =>
    obtain ⟨b, bs, he, hp⟩ := partAt_utf8EncodeChar c (utf8 cs ++ rest)
    have hu : utf8 (c :: cs) ++ rest = b :: (bs ++ (utf8 cs ++ rest)) := by
      rw [utf8, List.flatMap_cons, he, List.append_assoc]
      rfl
    rw [hu, utf8Parts, hp]
    dsimp only
    rw [List.drop_left, ih, List.map_cons, List.cons_append]

/-- **The parts of a text's octets are its characters** -/
theorem utf8Parts_utf8 (cs : List Char) : utf8Parts (utf8 cs) = cs.map some := by
  have h := utf8Parts_utf8_append cs []
  rwa [List.append_nil, utf8Parts, List.append_nil] at h

theorem utf8Dropping_utf8 (cs : List Char) : utf8Dropping (utf8 cs) = cs := by
  rw [utf8Dropping, utf8Parts_utf8, List.filterMap_map]
  exact List.filterMap_some

/-- a text is shown as it is -/
theorem shownOf_utf8Of (text : String) : shownOf (utf8Of text) = text := by
  rw [shownOf, utf8Marking, utf8Of, utf8Parts_utf8, List.map_map]
  change String.ofList (text.toList.map id) = text
  rw [List.map_id, String.ofList_toList]

/-- no two texts have the same octets -/
theorem utf8Of_inj {s t : String} : utf8Of s = utf8Of t ↔ s = t := by
  refine ⟨fun h => ?_, congrArg utf8Of⟩
  rw [← shownOf_utf8Of s, h, shownOf_utf8Of]

/-- no other character has an octet that is a character by itself -/
theorem not_mem_utf8EncodeChar {c : Char} {n : Nat} (hn : n < 0x80) (hc : n ≠ c.toNat) :
    UInt8.ofNat n ∉ String.utf8EncodeChar c := by
  have hval : c.val.toNat = c.toNat := rfl
  have hother {m : Nat} (hm : m < 0x100) (hne : n ≠ m) : UInt8.ofNat n ≠ UInt8.ofNat m := by
    intro he
    rw [← UInt8.toNat_inj, toNat_ofNat (by omega), toNat_ofNat hm] at he
    exact hne he
  unfold String.utf8EncodeChar
  dsimp only
  rw [hval]
  split
  · simp only [List.mem_singleton]
    exact hother (by omega) hc
  · split
    · simp only [List.mem_cons, List.not_mem_nil, or_false, not_or]
      exact ⟨hother (by omega) (by omega), hother (by omega) (by omega)⟩
    · split
      · simp only [List.mem_cons, List.not_mem_nil, or_false, not_or]
        exact ⟨hother (by omega) (by omega), hother (by omega) (by omega), hother (by omega) (by omega)⟩
      · simp only [List.mem_cons, List.not_mem_nil, or_false, not_or]
        exact ⟨hother (by omega) (by omega), hother (by omega) (by omega), hother (by omega) (by omega),
          hother (by omega) (by omega)⟩

theorem utf8EncodeChar_ascii {c : Char} (hc : c.toNat < 0x80) : String.utf8EncodeChar c = [UInt8.ofNat c.toNat] := by
  have hval : c.val.toNat = c.toNat := rfl
  unfold String.utf8EncodeChar
  dsimp only
  rw [hval, if_pos (by omega)]

/-- the pieces between separators of one octet are those between the characters -/
theorem pieces_utf8 {sep : Char} (hs : sep.toNat < 0x80) (cs : List Char) :
    pieces (UInt8.ofNat sep.toNat) (utf8 cs) = (pieces sep cs).map utf8 := by
  induction cs with
  | nil => rfl
  | cons c cs ih =>
    have hcons : utf8 (c :: cs) = String.utf8EncodeChar c ++ utf8 cs := rfl
    rw [hcons]
    by_cases hc : c = sep
    · subst hc
      rw [utf8EncodeChar_ascii hs, List.singleton_append, pieces, if_pos rfl, pieces, if_pos rfl, ih]
      rfl
    · have hne : sep.toNat ≠ c.toNat := fun he => hc (Char.toNat_inj.1 he).symm
      rw [pieces_append_of_not_mem (not_mem_utf8EncodeChar hs hne), ih, pieces, if_neg hc]
      cases hp : pieces sep cs with
      | nil => exact absurd hp (pieces_ne_nil sep cs)
      | cons p ps => rfl

/-- every text is exact in its own octets -/
theorem utf8Exact?_utf8Of (text : String) : utf8Exact? (utf8Of text) = some text.toList := by
  rw [utf8Exact?, utf8Of, utf8Parts_utf8]
  generalize text.toList = cs
  induction cs with
  | nil => rfl
  | cons c cs ih =>
    rw [List.map_cons, List.mapM_cons, ih]
    rfl

/-- a text has a byte order mark only where it starts with U+FEFF -/
theorem splitMark_utf8 {cs : List Char} (h : cs.head? ≠ some '\uFEFF') : splitMark (utf8 cs) = (.utf8, utf8 cs) := by
  have hp := utf8Parts_utf8 cs
  unfold splitMark
  split
  · rename_i rest hb
    have hm : partAt 0xEF (0xBB :: 0xBF :: rest) = (some '\uFEFF', 2) := rfl
    rw [hb, utf8Parts, hm] at hp
    cases cs with
    | nil => cases hp
    | cons c cs =>
      have hc : '\uFEFF' = c := Option.some_inj.1 (List.cons.inj hp).1
      exact absurd (congrArg some hc.symm) h
  · rename_i rest hb
    have hm : partAt 0xFF (0xFE :: rest) = (none, 0) := rfl
    rw [hb, utf8Parts, hm] at hp
    cases cs <;> cases hp
  · rename_i rest hb
    have hm : partAt 0xFE (0xFF :: rest) = (none, 0) := rfl
    rw [hb, utf8Parts, hm] at hp
    cases cs <;> cases hp
  · rfl

/-- **A text is decoded from its own octets**, unless it starts with what reads as a byte order mark -/
theorem decode_utf8Of {text : String} (h : text.toList.head? ≠ some '\uFEFF') : decode (utf8Of text) = text := by
  rw [decode, decodeChars, utf8Of, splitMark_utf8 h]
  dsimp only
  rw [utf8Dropping_utf8, String.ofList_toList]

end ImportHarvest.Text

import ImportHarvest.Proofs.Utf8
/-!
A text is the same in every encoding.

The units of a character are one unit outside the surrogates, or a high surrogate before a low one; so the units of a
text are read back as its characters, one by one (`textOfUnits_units`), and in either byte order its octets are read
back as these units (`unitsOf_utf16`). A byte order mark selects its encoding and is taken off once, whatever follows it
(`splitMark_append`). So a text is decoded from what any encoding makes of it behind its mark, and from plain UTF-8 when
it does not start with what reads as a mark (`text_of_every_encoding`).
-/

namespace ImportHarvest.Text

/-! ## Units -/

/-- the units of a character: one that is no surrogate, or a high surrogate and a low one that stand for it -/
theorem units_cases (c : Char) :
    (units c = [c.toNat] ∧ isHighSurrogate c.toNat = false ∧ isLowSurrogate c.toNat = false) ∨
      ∃ high low, units c = [high, low] ∧ isHighSurrogate high = true ∧ isLowSurrogate low = true ∧
        0x10000 + (high - 0xD800) * 0x400 + (low - 0xDC00) = c.toNat := by
  have hv : c.toNat < 0xD800 ∨ 0xDFFF < c.toNat ∧ c.toNat < 0x110000 := c.valid
  unfold units
  by_cases h : c.toNat < 0x10000
  · refine .inl ⟨if_pos h, ?_, ?_⟩
    · rw [isHighSurrogate, Bool.and_eq_false_iff, decide_eq_false_iff_not, decide_eq_false_iff_not]
      omega
    · rw [isLowSurrogate, Bool.and_eq_false_iff, decide_eq_false_iff_not, decide_eq_false_iff_not]
      omega
  · refine .inr ⟨_, _, if_neg h, ?_, ?_, ?_⟩
    · rw [isHighSurrogate, Bool.and_eq_true, decide_eq_true_eq, decide_eq_true_eq]
      omega
    · rw [isLowSurrogate, Bool.and_eq_true, decide_eq_true_eq, decide_eq_true_eq]
      omega
    · omega

/-- a unit has two octets -/
theorem units_lt (c : Char) : ∀ u ∈ units c, u < 0x10000 := by
  have hv : c.toNat < 0xD800 ∨ 0xDFFF < c.toNat ∧ c.toNat < 0x110000 := c.valid
  unfold units
  by_cases h : c.toNat < 0x10000
  · rw [if_pos h]
    exact List.forall_mem_singleton.2 h
  · rw [if_neg h]
    refine List.forall_mem_cons.2 ⟨?_, List.forall_mem_singleton.2 ?_⟩ <;> omega

section

variable (odd : Bool) (rest : List Nat)

/-- a unit that is no surrogate is a character by itself -/
theorem textOfUnits_single {u : Nat} (hh : isHighSurrogate u = false) (hl : isLowSurrogate u = false) :
    textOfUnits odd (u :: rest) = Char.ofNat u :: textOfUnits odd rest := by
  cases rest <;> simp [textOfUnits, hh, hl]

/-- a high surrogate and a low one are one character -/
theorem textOfUnits_pair {u v : Nat} (hu : isHighSurrogate u = true) (hv : isLowSurrogate v = true) :
    textOfUnits odd (u :: v :: rest) =
      Char.ofNat (0x10000 + (u - 0xD800) * 0x400 + (v - 0xDC00)) :: textOfUnits odd rest := by
  rw [textOfUnits, if_pos hu, if_pos hv]

end

/-- **The units of a text are read back as its characters** -/
theorem textOfUnits_units (cs : List Char) : textOfUnits false (cs.flatMap units) = cs := by
  induction cs with
  | nil => rfl
  | cons c cs ih =>
    rw [List.flatMap_cons]
    rcases units_cases c with ⟨hu, hh, hl⟩ | ⟨high, low, hu, hh, hl, hc⟩
    · rw [hu, List.singleton_append, textOfUnits_single _ _ hh hl, ih, Char.ofNat_toNat]
    · rw [hu, List.cons_append, List.singleton_append, textOfUnits_pair _ _ hh hl, ih, hc, Char.ofNat_toNat]

/-! ## Octets -/

/-- a unit is read back from its octets in the same order -/
theorem unitsOf_octets (order : ByteOrder) {u : Nat} (h : u < 0x10000) (rest : Octets) :
    unitsOf order (order.octets u ++ rest) = (u :: (unitsOf order rest).1, (unitsOf order rest).2) := by
  have hlow : (UInt8.ofNat u).toNat = u % 0x100 := UInt8.toNat_ofNat'
  have hhigh : (UInt8.ofNat (u / 0x100)).toNat = u / 0x100 := toNat_ofNat (by omega)
  have hu : u / 0x100 * 0x100 + u % 0x100 = u := by omega
  cases order <;>
    simp only [ByteOrder.octets, List.cons_append, List.nil_append, unitsOf, ByteOrder.unit, hlow, hhigh, hu]

theorem unitsOf_flatMap (order : ByteOrder) {us : List Nat} (h : ∀ u ∈ us, u < 0x10000) :
    unitsOf order (us.flatMap order.octets) = (us, false) := by
  induction us with
  | nil => rfl
  | cons u us ih =>
    obtain ⟨hu, hrest⟩ := List.forall_mem_cons.1 h
    rw [List.flatMap_cons, unitsOf_octets order hu, ih hrest]

/-- the octets of a text are read back as its units, with no octet left over -/
theorem unitsOf_utf16 (order : ByteOrder) (cs : List Char) :
    unitsOf order (utf16 order cs) = (cs.flatMap units, false) := by
  rw [utf16, ← List.flatMap_assoc]
  refine unitsOf_flatMap order fun u hu => ?_
  obtain ⟨c, -, hc⟩ := List.mem_flatMap.1 hu
  exact units_lt c u hc

theorem utf16Marking_utf16 (order : ByteOrder) (cs : List Char) : utf16Marking order (utf16 order cs) = cs := by
  rw [utf16Marking, unitsOf_utf16]
  exact textOfUnits_units cs

/-! ## Byte order marks -/

namespace Encoding

/-- the octets of a text in this encoding, without a mark -/
def octets : Encoding → List Char → Octets
  | .utf8, cs => Text.utf8 cs
  | .utf16 order, cs => Text.utf16 order cs

/-- the byte order mark: what the encoding makes of U+FEFF -/
def mark : Encoding → Octets
  | .utf8 => [0xEF, 0xBB, 0xBF]
  | .utf16 .little => [0xFF, 0xFE]
  | .utf16 .big => [0xFE, 0xFF]

theorem mark_eq (e : Encoding) : e.mark = e.octets ['\uFEFF'] := by
  cases e with
  | utf8 => rfl
  | utf16 order => cases order <;> rfl

theorem octets_append (e : Encoding) (a b : List Char) : e.octets (a ++ b) = e.octets a ++ e.octets b := by
  cases e <;> exact List.flatMap_append

end Encoding

/-- a mark selects its encoding, and what follows it is left as it is, also when it starts with a mark again -/
theorem splitMark_append (e : Encoding) (rest : Octets) : splitMark (e.mark ++ rest) = (e, rest) := by
  cases e with
  | utf8 => rfl
  | utf16 order => cases order <;> rfl

/-- a text behind the mark of an encoding -/
theorem decodeChars_marked (e : Encoding) (cs : List Char) : decodeChars (e.mark ++ e.octets cs) = cs := by
  rw [decodeChars, splitMark_append]
  cases e with
  | utf8 => exact utf8Dropping_utf8 cs
  | utf16 order => exact utf16Marking_utf16 order cs

/-- a text that starts with U+FEFF is read without it when no mark is put in front -/
theorem decodeChars_own_mark (e : Encoding) (cs : List Char) : decodeChars (e.octets ('\uFEFF' :: cs)) = cs := by
  rw [← List.singleton_append, e.octets_append, ← e.mark_eq, decodeChars_marked]

/-- **A text is decoded from every encoding.** Behind the mark of any encoding, the octets of a text in it are decoded
to the text, whatever it starts with: one mark is taken off, and a second one belongs to the text. Without a mark its
UTF-8 is decoded to it exactly when it does not start with U+FEFF, which would be taken for a mark. -/
theorem text_of_every_encoding (text : String) :
    (∀ e : Encoding, decode (e.mark ++ e.octets text.toList) = text) ∧
      (decode (utf8Of text) = text ↔ text.toList.head? ≠ some '\uFEFF') := by
  refine ⟨fun e => ?_, fun h hmark => ?_, decode_utf8Of⟩
  · rw [decode, decodeChars_marked, String.ofList_toList]
  · -- one character is missing from what is read
    obtain ⟨cs, hcs⟩ : ∃ cs, text.toList = '\uFEFF' :: cs := List.head?_eq_some_iff.1 hmark
    have hread : decodeChars (utf8Of text) = cs := by
      rw [utf8Of, hcs]
      exact decodeChars_own_mark .utf8 cs
    have hsame : cs = '\uFEFF' :: cs := by
      rw [← hcs, ← congrArg String.toList h, decode, String.toList_ofList, hread]
    exact absurd (congrArg List.length hsame) (Nat.ne_of_lt (Nat.lt_succ_self _))

/-- a text in UTF-16 that starts with a mark of its own keeps it -/
example : decode [0xFF, 0xFE, 0xFF, 0xFE, 0x3D, 0xD8, 0x00, 0xDE] = "\uFEFF😀" := by decide

end ImportHarvest.Text

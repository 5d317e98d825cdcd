import ImportHarvest.Proofs.Trimmed
import ImportHarvest.Text.Grouped
/-!
Numbers in groups of three digits.

Whether a comma goes before a digit depends on how many digits follow, so digits fall into groups from the right: three
digits with a number of threes behind them are a group of their own (`groupThousands_three`), and the one to three
digits that are left stand in front (`groupThousands_lead`). What is written is these groups with commas between them
(`exists_groups`). Everything else follows from that, since a digit is no comma.
-/

namespace ImportHarvest.Text

/-! ## The digits of a number -/

/-- the number in decimal: digits that have its value, at least one, and the first is a zero only if it is the only one -/
structure IsNumeral (n : Nat) (ds : List Char) : Prop where
  isDigit : ∀ c ∈ ds, c.isDigit = true
  value : natOfDigits ds = n
  nonempty : ds ≠ []
  leading : ds.head? = some '0' → ds = ['0']

theorem eq_zero_of_head_digits {n : Nat} (h : (digits n).head? = some '0') : n = 0 := by
  induction n using Nat.strongRecOn with
  | ind n ih =>
    by_cases hn : n < 10
    · rw [digits, Nat.toDigits_of_lt_base hn, List.head?_singleton, Option.some_inj] at h
      have hvalue : ∀ k < 10, Nat.digitChar k = '0' → k = 0 := by decide
      exact hvalue n hn h
    · -- the last digit goes, and the first one stays
      have hlast : digits n = digits (n / 10) ++ [(n % 10).digitChar] :=
        Nat.toDigits_of_base_le (by decide) (Nat.le_of_not_lt hn)
      have hne : digits (n / 10) ≠ [] := Nat.toDigits_ne_nil
      rw [hlast, List.head?_append_of_ne_nil _ hne] at h
      have hzero := ih (n / 10) (by omega) h
      omega

theorem isNumeral_digits (n : Nat) : IsNumeral n (digits n) where
  isDigit _ hc := Nat.isDigit_of_mem_toDigits (by decide) (by decide) hc
  value := natOfDigits_digits n
  nonempty := Nat.toDigits_ne_nil
  leading h := by rw [eq_zero_of_head_digits h]; rfl

/-! ## Groups -/

/-- groups as they stand between the commas: one to three digits, then three in each -/
def InThrees : List (List Char) → Prop
  | [] => False
  | lead :: groups => 1 ≤ lead.length ∧ lead.length ≤ 3 ∧ ∀ g ∈ groups, g.length = 3

section

variable {ds : List Char}

theorem groupThousands_three (h : ds.length % 3 = 0) (a b c : Char) :
    groupThousands false (a :: b :: c :: ds) = ',' :: a :: b :: c :: groupThousands false ds := by
  have ha : (ds.length + 1 + 1 + 1) % 3 = 0 := by omega
  have hb : (ds.length + 1 + 1) % 3 ≠ 0 := by omega
  have hc : (ds.length + 1) % 3 ≠ 0 := by omega
  simp [groupThousands, ha, hb, hc]

theorem groupThousands_lead {lead : List Char} (hpos : 1 ≤ lead.length) (hle : lead.length ≤ 3)
    (h : ds.length % 3 = 0) : groupThousands true (lead ++ ds) = lead ++ groupThousands false ds := by
  have hb : (ds.length + 1 + 1) % 3 ≠ 0 := by omega
  have hc : (ds.length + 1) % 3 ≠ 0 := by omega
  match lead, hpos, hle with
  | [c], _, _ => simp [groupThousands]
  | [b, c], _, _ => simp [groupThousands, hc]
  | [a, b, c], _, _ => simp [groupThousands, hb, hc]

/-- digits of which there are a number of threes: each group has a comma before it -/
theorem exists_threes {k : Nat} (h : ds.length = 3 * k) :
    ∃ groups : List (List Char), (∀ g ∈ groups, g.length = 3) ∧ groups.flatten = ds ∧
      groupThousands false ds = groups.flatMap fun g => ',' :: g := by
  induction k generalizing ds with
  | zero =>
    obtain rfl := List.length_eq_zero_iff.1 h
    exact ⟨[], by simp, rfl, rfl⟩
  | succ k ih =>
    match ds, h with
    | a :: b :: c :: ds, h =>
      have hds : ds.length = 3 * k := by simp only [List.length_cons] at h; omega
      obtain ⟨groups, hthree, hflat, hgrouped⟩ := ih hds
      refine ⟨[a, b, c] :: groups, List.forall_mem_cons.2 ⟨rfl, hthree⟩, ?_, ?_⟩
      · rw [List.flatten_cons, hflat]
        rfl
      · rw [groupThousands_three (by omega), hgrouped, List.flatMap_cons]
        rfl

/-- **Digits are written in threes**, with a comma between each two groups -/
theorem exists_groups (h : ds ≠ []) :
    ∃ groups, InThrees groups ∧ groups.flatten = ds ∧ groupThousands true ds = glue [','] groups := by
  have hpos : 0 < ds.length := List.length_pos_iff.2 h
  -- as many digits in front as leave a number of threes behind them
  obtain ⟨lead, rest, rfl, hl, hle, k, hrest⟩ : ∃ lead rest, lead ++ rest = ds ∧ 1 ≤ lead.length ∧ lead.length ≤ 3 ∧
      ∃ k, rest.length = 3 * k := by
    refine ⟨ds.take ((ds.length - 1) % 3 + 1), ds.drop ((ds.length - 1) % 3 + 1), List.take_append_drop _ _, ?_, ?_,
      (ds.length - 1) / 3, ?_⟩
    · rw [List.length_take]; omega
    · rw [List.length_take]; omega
    · rw [List.length_drop]; omega
  obtain ⟨groups, hthree, rfl, hgrouped⟩ := exists_threes hrest
  refine ⟨lead :: groups, ⟨hl, hle, hthree⟩, List.flatten_cons, ?_⟩
  rw [groupThousands_lead hl hle (by omega), hgrouped, glue_cons]
  rfl

theorem filter_groupThousands (h : ',' ∉ ds) (first : Bool) : (groupThousands first ds).filter (· ≠ ',') = ds := by
  induction ds generalizing first with
  | nil => rfl
  | cons d ds ih =>
    obtain ⟨hd, hds⟩ := List.ne_and_not_mem_of_not_mem_cons h
    rw [groupThousands]
    split
    · simpa [hd.symm] using ih hds false
    · simpa [hd.symm] using ih hds false

end

/-! ## What is written -/

/-- a text whose pieces are not empty has no separator at either end -/
theorem ends_of_pieces {sep : Char} {text : List Char} (h : [] ∉ pieces sep text) :
    text.head? ≠ some sep ∧ text.getLast? ≠ some sep := by
  constructor
  · intro hhead
    obtain ⟨rest, rfl⟩ := List.head?_eq_some_iff.1 hhead
    exact h (by simp [pieces])
  · intro hlast
    obtain ⟨before, rfl⟩ := List.getLast?_eq_some_iff.1 hlast
    exact h (by simp [pieces_append, pieces])

theorem not_comma_mem_digits (n : Nat) : ',' ∉ digits n :=
  fun hc => absurd ((isNumeral_digits n).isDigit ',' hc) (by decide)

theorem filter_grouped (n : Nat) : (grouped n).toList.filter (· ≠ ',') = digits n := by
  rw [grouped, String.toList_ofList, filter_groupThousands (not_comma_mem_digits n)]

theorem pieces_grouped (n : Nat) : InThrees (pieces ',' (grouped n).toList) := by
  obtain ⟨groups, hgroups, hflat, hgrouped⟩ := exists_groups (isNumeral_digits n).nonempty
  have hne : groups ≠ [] := by rintro rfl; exact hgroups
  have hcomma : ∀ g ∈ groups, ',' ∉ g :=
    fun g hg hc => not_comma_mem_digits n (hflat ▸ List.mem_flatten_of_mem hg hc)
  rwa [grouped, String.toList_ofList, hgrouped, pieces_glue hne hcomma]

theorem InThrees.nil_not_mem {groups : List (List Char)} (h : InThrees groups) : [] ∉ groups := by
  match groups, h with
  | lead :: groups, ⟨hpos, _, hthree⟩ =>
    intro hnil
    rcases List.mem_cons.1 hnil with rfl | hnil
    · exact absurd hpos (by decide)
    · exact absurd (hthree [] hnil) (by decide)

/-- **A number is written in groups of three digits.** Without its commas it is the number in decimal; between them
stand one to three digits first, then three each time. So no two numbers are written alike, and no comma stands at
either end. -/
theorem number_in_threes (n : Nat) :
    IsNumeral n ((grouped n).toList.filter (· ≠ ',')) ∧ InThrees (pieces ',' (grouped n).toList) ∧
      Function.Injective grouped ∧
      (grouped n).toList.head? ≠ some ',' ∧ (grouped n).toList.getLast? ≠ some ',' := by
  refine ⟨?_, pieces_grouped n, ?_, ends_of_pieces (pieces_grouped n).nil_not_mem⟩
  · rw [filter_grouped]
    exact isNumeral_digits n
  · intro m k h
    have hdigits : digits m = digits k := by rw [← filter_grouped, h, filter_grouped]
    rw [← natOfDigits_digits m, hdigits, natOfDigits_digits]

example : grouped 1048576 = "1,048,576" := by decide

end ImportHarvest.Text

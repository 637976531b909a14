import Mathlib.Data.List.DropRight
import StakeAccounting.TokenId

/-!
# Normalised token names

A token name is normalised where it is made: blanks at both ends are dropped, and letters
are lower-cased. Doing so once is enough. What is trimmed stays trimmed, and lower-casing
neither makes nor removes a blank (`isBlank_toLower`), so the two steps commute. A name that
was made is therefore the one its own text spells (`TokenId.normalised_ofText`), which is
why a written name can be read by making it again.

Which texts spell one name can be said without making it: what is left of them between the
blanks at their ends (`Trims`) has the same letters, but for their case (`TokenId.SameName`,
`TokenId.ofText_eq_ofText_iff`).
-/

namespace StakeAccounting

/-! ## Letters and blanks -/

/-- A lower-case letter of the ASCII range is left alone, and so is any other character but
the upper-case ones, which become these. -/
theorem toNat_toLower (c : Char) : c.toLower.toNat =
    if 65 ≤ c.toNat ∧ c.toNat ≤ 90 then c.toNat + 32 else c.toNat := by
  unfold Char.toLower
  by_cases h : c.val ≥ 'A'.val ∧ c.val ≤ 'Z'.val
  · have hupper : 65 ≤ c.toNat ∧ c.toNat ≤ 90 :=
      ⟨UInt32.le_iff_toNat_le.mp h.1, UInt32.le_iff_toNat_le.mp h.2⟩
    rw [dif_pos h, if_pos hupper]
    show (c.val + 32).toNat = c.val.toNat + 32
    rw [UInt32.toNat_add, Nat.mod_eq_of_lt]
    · rfl
    · exact Nat.lt_of_le_of_lt (Nat.add_le_add_right hupper.2 32) (by decide)
  · have hother : ¬ (65 ≤ c.toNat ∧ c.toNat ≤ 90) := fun hupper =>
      h ⟨UInt32.le_iff_toNat_le.mpr hupper.1, UInt32.le_iff_toNat_le.mpr hupper.2⟩
    rw [dif_neg h, if_neg hother]

/-- Lower-casing twice is lower-casing once. -/
theorem toLower_toLower (c : Char) : c.toLower.toLower = c.toLower := by
  refine Char.toNat_inj.mp ?_
  rw [toNat_toLower, toNat_toLower]
  split_ifs <;> omega

/-- No letter is blank, in upper or in lower case. -/
theorem isBlank_toLower (c : Char) : isBlank c.toLower = isBlank c := by
  unfold isBlank blankRanges
  rw [Bool.eq_iff_iff]
  simp only [List.any_cons, List.any_nil, toNat_toLower, Bool.or_eq_true, Bool.and_eq_true,
    decide_eq_true_eq, Bool.false_eq_true, or_false]
  split_ifs <;> omega

/-! ## Trimming -/

/-- Blanks are dropped from the front, then from the end. -/
theorem trimBlankChars_eq (cs : List Char) :
    trimBlankChars cs = (cs.dropWhile isBlank).rdropWhile isBlank := rfl

/-- **Trimming twice is trimming once.** -/
theorem trimBlankChars_trimBlankChars (cs : List Char) :
    trimBlankChars (trimBlankChars cs) = trimBlankChars cs := by
  have hfront : (trimBlankChars cs).dropWhile isBlank = trimBlankChars cs := by
    -- what is left at the front after the first trimming is still there after the second
    rw [List.dropWhile_eq_self_iff]
    intro hpos
    have hleft : trimBlankChars cs <+: cs.dropWhile isBlank := List.rdropWhile_prefix _ _
    rw [hleft.getElem hpos]
    exact List.dropWhile_eq_self_iff.mp (List.dropWhile_idempotent isBlank cs)
      (Nat.lt_of_lt_of_le hpos hleft.length_le)
  rw [trimBlankChars_eq (trimBlankChars cs), hfront, trimBlankChars_eq,
    List.rdropWhile_idempotent]

/-- Trimming and lower-casing commute. -/
theorem trimBlankChars_toLower (cs : List Char) :
    trimBlankChars (cs.map Char.toLower) = (trimBlankChars cs).map Char.toLower := by
  have hblank : isBlank ∘ Char.toLower = isBlank := funext isBlank_toLower
  unfold trimBlankChars
  rw [List.dropWhile_map, hblank, ← List.map_reverse, List.dropWhile_map, hblank,
    ← List.map_reverse]

/-- **A text without the blanks at both ends**: what is left out is blank, and what is left
neither begins nor ends with a blank. -/
structure Trims (cs core : List Char) : Prop where
  /-- Only blanks are left out, in front and behind. -/
  exists_eq : ∃ front back, cs = front ++ (core ++ back) ∧ (∀ c ∈ front, isBlank c = true) ∧
    ∀ c ∈ back, isBlank c = true
  /-- What is left does not begin with a blank. -/
  head_eq : ∀ h : core ≠ [], isBlank (core.head h) = false
  /-- What is left does not end with a blank. -/
  getLast_eq : ∀ h : core ≠ [], isBlank (core.getLast h) = false

/-- **Trimming leaves out the blanks at both ends.** -/
theorem trims_trimBlankChars (cs : List Char) : Trims cs (trimBlankChars cs) where
  exists_eq := by
    refine ⟨cs.takeWhile isBlank, (cs.dropWhile isBlank).rtakeWhile isBlank, ?_,
      fun c hc => List.mem_takeWhile_imp hc, fun c hc => List.mem_rtakeWhile_imp hc⟩
    rw [trimBlankChars_eq, List.rdropWhile_append_rtakeWhile, List.takeWhile_append_dropWhile]
  head_eq h := by
    have hleft : trimBlankChars cs <+: cs.dropWhile isBlank := List.rdropWhile_prefix _ _
    rw [hleft.head h]
    exact List.head_dropWhile_not isBlank _
  getLast_eq h := Bool.eq_false_iff.mpr (List.rdropWhile_last_not isBlank (cs.dropWhile isBlank) h)

/-- **Nothing else is a text without the blanks at both ends.** -/
theorem Trims.trimBlankChars_eq {cs core : List Char} (h : Trims cs core) :
    trimBlankChars cs = core := by
  obtain ⟨front, back, rfl, hfront, hback⟩ := h.exists_eq
  have hend : (core ++ back).rdropWhile isBlank = core.rdropWhile isBlank := by
    rw [List.rdropWhile, List.reverse_append,
      List.dropWhile_append_of_pos fun c hc => hback c (List.mem_reverse.mp hc), List.rdropWhile]
  rw [StakeAccounting.trimBlankChars_eq, List.dropWhile_append_of_pos hfront]
  cases core with
  | nil => rw [List.nil_append, List.dropWhile_eq_nil_iff.mpr hback, List.rdropWhile_nil]
  | cons c core =>
    have hhead : ¬isBlank c = true := Bool.eq_false_iff.mp (h.head_eq (List.cons_ne_nil c core))
    rw [List.cons_append, List.dropWhile_cons_of_neg hhead, ← List.cons_append, hend]
    exact List.rdropWhile_eq_self_iff.mpr fun hne => Bool.eq_false_iff.mp (h.getLast_eq hne)

/-- A text is trimmed to nothing if all of it is blank. -/
theorem trimBlank_eq_empty_iff (s : String) :
    trimBlank s = "" ↔ ∀ c ∈ s.toList, isBlank c = true := by
  rw [← String.toList_inj, trimBlank, String.toList_ofList, String.toList_empty]
  constructor
  · intro hnil
    obtain ⟨front, back, heq, hfront, hback⟩ := (trims_trimBlankChars s.toList).exists_eq
    rw [heq, hnil, List.nil_append]
    exact fun c hc => (List.mem_append.mp hc).elim (hfront c) (hback c)
  · intro hblank
    exact Trims.trimBlankChars_eq
      ⟨⟨s.toList, [], (List.append_nil _).symm, hblank, nofun⟩, nofun, nofun⟩

namespace TokenId

/-- **Two texts spell one name**: without the blanks at both ends they agree, but for the case of
ASCII letters. -/
def SameName (s t : String) : Prop :=
  ∃ cs ds, Trims s.toList cs ∧ Trims t.toList ds ∧ cs.map Char.toLower = ds.map Char.toLower

/-- **A name stands for all its spellings**, and for nothing else. -/
theorem ofText_eq_ofText_iff (s t : String) : ofText s = ofText t ↔ SameName s t := by
  have hsplit : ofText s = ofText t ↔ (trimBlankChars s.toList).map Char.toLower =
      (trimBlankChars t.toList).map Char.toLower := by
    rw [ofText, ofText, TokenId.mk.injEq, ← String.toList_inj]
    simp only [foldCase, trimBlank, String.toList_ofList]
  rw [hsplit]
  constructor
  · exact fun h => ⟨_, _, trims_trimBlankChars s.toList, trims_trimBlankChars t.toList, h⟩
  · rintro ⟨cs, ds, hs, ht, h⟩
    rwa [hs.trimBlankChars_eq, ht.trimBlankChars_eq]

instance (s t : String) : Decidable (SameName s t) :=
  decidable_of_iff _ (ofText_eq_ofText_iff s t)

/-- **A name is normalised** if it is the one its text spells. -/
def Normalised (t : TokenId) : Prop := ofText t.text = t

instance (t : TokenId) : Decidable t.Normalised := inferInstanceAs (Decidable (_ = _))

/-- **Every name that is made is normalised.** -/
theorem normalised_ofText (s : String) : (ofText s).Normalised := by
  unfold Normalised ofText
  rw [TokenId.mk.injEq, ← String.toList_inj]
  simp only [foldCase, trimBlank, String.toList_ofList, trimBlankChars_toLower,
    trimBlankChars_trimBlankChars, List.map_map]
  exact List.map_congr_left fun c _ => toLower_toLower c

end TokenId

end StakeAccounting

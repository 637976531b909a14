import StakeAccounting.Proofs.Decimal.Ratio

/-!
# Sums that saturate

Where a sum or a difference is out of range, the saturating forms answer with the
extreme decimal on the side of the first number. That is the side the exact result is
on, since numbers of opposite signs have a sum in range. So a saturating sum is again
a function of the exact sum (`quanta_addSaturating`), and one that keeps the order
(`saturated_le_saturated`), from one end of the range to the other.
-/

namespace StakeAccounting

namespace Decimal

/-- **The quanta of the decimal nearest `n` units of `10^-56`**, the extreme one on the
side of `n` where that is out of range. -/
def saturated (n : Int) : Int := signed (decide (n < 0)) (saturatedRatio n.natAbs (tens 28))

theorem saturated_of_nonneg {n : Int} (h : 0 ≤ n) :
    saturated n = saturatedRatio n.natAbs (tens 28) := by
  rw [saturated, decide_eq_false (by omega), signed, if_neg (by decide)]

theorem saturated_of_neg {n : Int} (h : n < 0) :
    saturated n = -(saturatedRatio n.natAbs (tens 28) : Int) := by
  rw [saturated, decide_eq_true h, signed, if_pos rfl]

theorem saturatedRatio_natAbs_le {n m : Int} (h : n.natAbs ≤ m.natAbs) :
    saturatedRatio n.natAbs (tens 28) ≤ saturatedRatio m.natAbs (tens 28) :=
  saturatedRatio_le_saturatedRatio (tens_pos 28) (tens_pos 28) (Nat.mul_le_mul_right _ h)

/-- **Saturating keeps the order.** -/
theorem saturated_le_saturated {n m : Int} (h : n ≤ m) : saturated n ≤ saturated m := by
  by_cases hn : n < 0
  · rw [saturated_of_neg hn]
    by_cases hm : m < 0
    · rw [saturated_of_neg hm]
      have := saturatedRatio_natAbs_le (n := m) (m := n) (by omega)
      omega
    · rw [saturated_of_nonneg (by omega)]
      omega
  · rw [saturated_of_nonneg (by omega), saturated_of_nonneg (by omega)]
    exact_mod_cast saturatedRatio_natAbs_le (by omega)

/-- Within the range, saturating is rounding. -/
theorem saturated_of_nearest? {n q : Int} (h : nearest? n = some q) : saturated n = q := by
  rw [nearest?_eq_nearestRatio?] at h
  obtain ⟨p, hp, rfl⟩ := Option.map_eq_some_iff.mp h
  rw [saturated, saturatedRatio_of_some hp]

/-- **Rounding keeps the order** of what can be rounded. -/
theorem nearest?_le_nearest? {n m p q : Int} (hn : nearest? n = some p) (hm : nearest? m = some q)
    (h : n ≤ m) : p ≤ q := by
  rw [← saturated_of_nearest? hn, ← saturated_of_nearest? hm]
  exact saturated_le_saturated h

/-- **A sum is no less than what is added** to a number that is not negative, rounded or not. -/
theorem le_plus {a b c : Decimal} (ha : 0 ≤ a.quanta) (h : a.plus b = .ok c) : b ≤ c := by
  have ht : (0 : Int) ≤ tens 28 := Int.natCast_nonneg _
  exact nearest?_le_nearest? (nearest?_quanta b) (nearest?_of_add? (plus_eq_ok.mp h))
    (Int.mul_le_mul_of_nonneg_right (by omega) ht)

/-- **A sum is no less than what is added to**, if what is added is not negative. -/
theorem le_of_add? {a b c : Decimal} (hb : zero ≤ b) (h : add? a b = some c) : a ≤ c := by
  rw [le_def, quanta_zero] at hb
  exact nearest?_le_nearest? (nearest?_quanta a) (nearest?_of_add? h)
    (Int.mul_le_mul_of_nonneg_right (by omega) (Int.natCast_nonneg _))

/-- **A sum keeps the order** of what is added. -/
theorem add?_le_add? {a b b' c c' : Decimal} (hle : b ≤ b') (h : add? a b = some c)
    (h' : add? a b' = some c') : c ≤ c' := by
  rw [le_def] at hle
  exact nearest?_le_nearest? (nearest?_of_add? h) (nearest?_of_add? h')
    (Int.mul_le_mul_of_nonneg_right (by omega) (Int.natCast_nonneg _))

/-- **A product keeps the order** of its first factor, where the second is not negative. -/
theorem mul?_le_mul? {a a' b c c' : Decimal} (hle : a ≤ a') (hb : zero ≤ b)
    (h : mul? a b = some c) (h' : mul? a' b = some c') : c ≤ c' :=
  nearest?_le_nearest? (nearest?_of_mul? h) (nearest?_of_mul? h')
    (Int.mul_le_mul_of_nonneg_right hle hb)

/-- **A product keeps the order** of both factors, where none is negative. -/
theorem mul?_le_mul?_of_le_of_le {a a' b b' c c' : Decimal} (ha : zero ≤ a) (hle : a ≤ a')
    (hb : zero ≤ b) (hle' : b ≤ b') (h : mul? a b = some c) (h' : mul? a' b' = some c') :
    c ≤ c' :=
  nearest?_le_nearest? (nearest?_of_mul? h) (nearest?_of_mul? h')
    (Int.mul_le_mul hle hle' hb (Int.le_trans ha hle))

/-- **A difference keeps the order** of what is taken from. -/
theorem minus_le_minus {a a' b c c' : Decimal} (hle : a ≤ a') (h : a.minus b = .ok c)
    (h' : a'.minus b = .ok c') : c ≤ c' := by
  rw [le_def] at hle
  exact nearest?_le_nearest? (nearest?_of_sub? (minus_eq_ok.mp h))
    (nearest?_of_sub? (minus_eq_ok.mp h'))
    (Int.mul_le_mul_of_nonneg_right (by omega) (Int.natCast_nonneg _))

/-- Beyond the range, saturating is the extreme on the side of the number. -/
theorem saturated_of_none {n : Int} (h : nearest? n = none) :
    saturated n = signed (decide (n < 0)) greatestQuanta := by
  rw [nearest?_eq_nearestRatio?, Option.map_eq_none_iff] at h
  rw [saturated, saturatedRatio, h, Option.getD_none]

theorem quanta_greatest : greatest.quanta = greatestQuanta := rfl

/-- No decimal is worth more than the greatest. -/
theorem quanta_le_greatest (a : Decimal) : a.quanta ≤ greatestQuanta := by
  have hs := a.scale_le
  have hm := le_greatestQuanta a.mantissa_lt (show 28 - a.scale ≤ 28 by omega)
  rw [← natAbs_quanta] at hm
  omega

theorem quanta_extremeLike (a : Decimal) :
    a.extremeLike.quanta = signed a.negative greatestQuanta := by
  unfold extremeLike signed
  split
  · rw [quanta_neg, quanta_greatest]
  · exact quanta_greatest

/-- Numbers of opposite signs have a sum in range. -/
theorem exists_nearest?_of_opposite {a b : Decimal} (ha : 0 ≤ a.quanta) (hb : b.quanta ≤ 0) :
    ∃ q, nearest? ((a.quanta + b.quanta) * tens 28) = some q := by
  obtain ⟨c, hc⟩ := exists_plus_of_opposite ha hb
  exact ⟨c.quanta, nearest?_of_add? (plus_eq_ok.mp hc)⟩

/-- **A saturating sum** is the exact sum, rounded or at the end of the range. -/
theorem quanta_addSaturating (a b : Decimal) :
    (a.addSaturating b).quanta = saturated ((a.quanta + b.quanta) * tens 28) := by
  have hmap := map_quanta_add? a b
  have ht : (0 : Int) < tens 28 := Int.natCast_pos.mpr (tens_pos 28)
  unfold addSaturating
  cases hsum : add? a b with
  | some c =>
    rw [hsum, Option.map_some] at hmap
    rw [Option.getD_some, saturated_of_nearest? hmap.symm]
  | none =>
    rw [hsum, Option.map_none] at hmap
    rw [Option.getD_none, saturated_of_none hmap.symm, quanta_extremeLike]
    congr 1
    -- the first number is on the side of the sum, as the sum is out of range
    cases hneg : a.negative with
    | false =>
      have ha := quanta_nonneg hneg
      refine (decide_eq_false fun hlt => ?_).symm
      have hsum : a.quanta + b.quanta < 0 := by
        by_contra hge
        have := Int.mul_nonneg (show 0 ≤ a.quanta + b.quanta by omega) (Int.le_of_lt ht)
        omega
      obtain ⟨q, hq⟩ := exists_nearest?_of_opposite ha (b := b) (by omega)
      rw [hq] at hmap
      cases hmap
    | true =>
      have ha : a.quanta ≤ 0 := by
        have h := quanta_nonneg (a := -a) (by show (!a.negative) = false; rw [hneg]; rfl)
        rw [quanta_neg] at h
        omega
      refine (decide_eq_true ?_).symm
      by_contra hge
      have hsum : 0 ≤ a.quanta + b.quanta := by
        by_contra hlt
        have := Int.mul_neg_of_neg_of_pos (show a.quanta + b.quanta < 0 by omega) ht
        omega
      obtain ⟨q, hq⟩ := exists_nearest?_of_opposite (a := b) (b := a) (by omega) ha
      rw [Int.add_comm, hq] at hmap
      cases hmap

/-- **A saturating sum keeps the order** of what is added to. -/
theorem addSaturating_le_addSaturating {a a' : Decimal} (h : a ≤ a') (b : Decimal) :
    a.addSaturating b ≤ a'.addSaturating b := by
  rw [le_def] at h ⊢
  rw [quanta_addSaturating, quanta_addSaturating]
  exact saturated_le_saturated (Int.mul_le_mul_of_nonneg_right (by omega) (Int.natCast_nonneg _))

/-- **A saturating difference** is the exact difference, rounded or at the end of the
range. -/
theorem quanta_subSaturating (a b : Decimal) :
    (a.subSaturating b).quanta = saturated ((a.quanta - b.quanta) * tens 28) := by
  have hsame : (a.subSaturating b).quanta = (a.addSaturating (-b)).quanta := by
    unfold subSaturating addSaturating
    rw [← Option.getD_map quanta, ← Option.getD_map quanta, map_quanta_sub?, map_quanta_add?,
      quanta_neg, ← Int.sub_eq_add_neg]
  rw [hsame, quanta_addSaturating, quanta_neg, ← Int.sub_eq_add_neg]

end Decimal

end StakeAccounting

import Mathlib.Algebra.Order.Field.Basic
import Mathlib.Tactic.Linarith
import StakeAccounting.Proofs.Decimal.Restored
import StakeAccounting.Proofs.Decimal.Units

/-!
# How far rounding is off

A result is off by half a unit of the last place that is kept. Which place that is depends on
the number: all 28 where the mantissa has room for them, fewer where the number is great. Both
cases are covered by one bound, half a unit of the last place there is and the `10^28`-th part of
the number (`Decimal.Approximates`): where a place had to be given up, the digits were too many
for a mantissa, so the unit is a small part of what they stand for
(`abs_nearestRatio?_sub_le`).

Sums, products and quotients approximate the exact ones (`approximates_add?`, `approximates_mul?`,
`approximates_div?`). Where a fraction is formed first and a number is multiplied by it then, the
error of the fraction is multiplied by the number, too; so the two errors together are in proportion
to the number (`abs_value_sub_le_of_fraction`).
-/

namespace StakeAccounting

namespace Decimal

variable {n d q : Nat} {a b c f : Decimal}

/-! ## Ratios of quanta -/

/-- **Digits are off by half a unit** of the place they end at. -/
theorem abs_digitsAt_sub_le (hd : 0 < d) (k : Nat) :
    |(digitsAt n d k : Rat) * tens k - n / d| ≤ tens k / 2 := by
  have hdr : (0 : Rat) < d := Nat.cast_pos.mpr hd
  have hround : 2 * |(digitsAt n d k : Rat) * tens k * d - n| ≤ tens k * d := by
    have h := ((divHalfEven_eq_iff (Nat.mul_pos hd (tens_pos k))).mp
      (rfl : divHalfEven n (d * tens k) = digitsAt n d k)).1
    zify at h
    rw [abs_sub_comm, mul_assoc, mul_comm (tens k : Rat)]
    exact_mod_cast h
  have hscale : (digitsAt n d k : Rat) * tens k - n / d =
      (digitsAt n d k * tens k * d - n) / d := by
    rw [sub_div, mul_div_cancel_right₀ _ (ne_of_gt hdr)]
  rw [hscale, abs_div, abs_of_pos hdr, div_le_iff₀ hdr]
  linarith

/-- **Rounding a ratio is off by half a unit** of the last place there is, and the `10^28`-th part
of the ratio: so much is half a unit of any place that had to be given up. -/
theorem abs_nearestRatio?_sub_le (hd : 0 < d) (h : nearestRatio? n d = some q) :
    |(q : Rat) - n / d| ≤ 1 / 2 + n / d / tens 28 := by
  have hratio : (0 : Rat) ≤ n / d := div_nonneg (Nat.cast_nonneg n) (Nat.cast_nonneg d)
  obtain ⟨k, -, rfl, -, hfirst⟩ := nearestRatio?_eq_some h
  rw [Nat.cast_mul]
  refine (abs_digitsAt_sub_le hd k).trans ?_
  cases k with
  | zero =>
    rw [tens_zero, Nat.cast_one]
    exact le_add_of_nonneg_right (div_nonneg hratio (Nat.cast_nonneg _))
  | succ k =>
    -- with one place more the digits are too many for a mantissa, and not by the rounding alone
    have hmany : (mantissaBound : Rat) * tens k ≤ digitsAt n d k * tens k :=
      mul_le_mul_of_nonneg_right (Nat.cast_le.mpr (hfirst k (Nat.lt_succ_self k)))
        (Nat.cast_nonneg _)
    have hclose := (abs_le.mp (abs_digitsAt_sub_le (n := n) hd k)).2
    have hgreat : (mantissaBound - 1 / 2 : Rat) * tens k ≤ n / d := by linarith
    have hunit : (tens (k + 1) : Rat) / 2 ≤ n / d / tens 28 := by
      have ht : (0 : Rat) ≤ tens k := Nat.cast_nonneg _
      have hbound : (5 * tens 28 : Rat) ≤ mantissaBound - 1 / 2 := by norm_num [mantissaBound, tens]
      rw [le_div_iff₀ (Nat.cast_pos.mpr (tens_pos 28)), tens_succ, Nat.cast_mul, Nat.cast_ofNat]
      calc (tens k * 10 / 2 * tens 28 : Rat) = 5 * tens 28 * tens k := by ring
        _ ≤ (mantissaBound - 1 / 2) * tens k := mul_le_mul_of_nonneg_right hbound ht
        _ ≤ n / d := hgreat
    linarith

/-! ## Decimals -/

/-- **A decimal approximates a number** that is not negative, as closely as rounding comes: up to
half a unit of the last place there is, and the `10^28`-th part of the number. -/
def Approximates (c : Decimal) (x : Rat) : Prop := |c.value - x| ≤ (1 / 2 + x) / tens 28

/-- How far it is above at most. -/
theorem Approximates.value_le {x : Rat} (h : c.Approximates x) :
    c.value ≤ x + (1 / 2 + x) / tens 28 := sub_le_iff_le_add'.mp (abs_sub_le_iff.mp h).1

/-- How far it is below at most. -/
theorem Approximates.le_value {x : Rat} (h : c.Approximates x) :
    x ≤ c.value + (1 / 2 + x) / tens 28 := sub_le_iff_le_add'.mp (abs_sub_le_iff.mp h).2

/-- What is rounded from a ratio of quanta approximates it. -/
theorem approximates_of_nearestRatio? (hd : 0 < d) (h : nearestRatio? n d = some q)
    (hc : c.quanta = q) : c.Approximates (n / d / tens 28) := by
  have ht : (0 : Rat) < tens 28 := Nat.cast_pos.mpr (tens_pos 28)
  unfold Approximates
  rw [value_eq, hc, Int.cast_natCast, Int.cast_natCast, ← sub_div, abs_div, abs_of_pos ht]
  exact div_le_div_of_nonneg_right (abs_nearestRatio?_sub_le hd h) (le_of_lt ht)

/-- **A quotient approximates** the exact one. -/
theorem approximates_div? (ha : zero ≤ a) (hb : zero < b) (h : div? a b = some c) :
    c.Approximates (a.value / b.value) := by
  rw [le_def, quanta_zero] at ha
  rw [lt_def, quanta_zero] at hb
  obtain ⟨n, hn⟩ := Int.eq_ofNat_of_zero_le ha
  obtain ⟨d, hd⟩ := Int.eq_ofNat_of_zero_le (Int.le_of_lt hb)
  have hpos : 0 < d := by omega
  obtain ⟨q, hq, hqc⟩ := nearestRatio?_of_div? hn hd hpos h
  have ht : (tens 28 : Rat) ≠ 0 := Nat.cast_ne_zero.mpr (Nat.ne_of_gt (tens_pos 28))
  have hexact : a.value / b.value = ((n * tens 28 : Nat) : Rat) / d / tens 28 := by
    rw [value_eq, value_eq, hn, hd]
    push_cast
    field_simp
  rw [hexact]
  exact approximates_of_nearestRatio? hpos hq hqc

/-- What is rounded from units of `10^-56` approximates them. -/
theorem approximates_of_nearest? {n : Int} (hn : 0 ≤ n) (h : nearest? n = some c.quanta) :
    c.Approximates (n / tens 28 / tens 28) := by
  obtain ⟨m, rfl⟩ := Int.eq_ofNat_of_zero_le hn
  rw [nearest?_eq_nearestRatio?, Int.natAbs_natCast,
    decide_eq_false (Int.not_lt.mpr (Int.natCast_nonneg _))] at h
  obtain ⟨q, hq, hqc⟩ := Option.map_eq_some_iff.mp h
  exact approximates_of_nearestRatio? (tens_pos 28) hq hqc.symm

/-- **A sum approximates** the exact one. -/
theorem approximates_add? (ha : zero ≤ a) (hb : zero ≤ b) (h : add? a b = some c) :
    c.Approximates (a.value + b.value) := by
  rw [le_def, quanta_zero] at ha hb
  have happrox := approximates_of_nearest?
    (Int.mul_nonneg (Int.add_nonneg ha hb) (Int.natCast_nonneg _)) (nearest?_of_add? h)
  have ht : (tens 28 : Rat) ≠ 0 := Nat.cast_ne_zero.mpr (Nat.ne_of_gt (tens_pos 28))
  rwa [Int.cast_mul, Int.cast_natCast, mul_div_cancel_right₀ _ ht, Int.cast_add, add_div,
    ← Int.cast_natCast (tens 28), ← value_eq, ← value_eq] at happrox

/-- **A product approximates** the exact one. -/
theorem approximates_mul? (ha : zero ≤ a) (hb : zero ≤ b) (h : mul? a b = some c) :
    c.Approximates (a.value * b.value) := by
  rw [le_def, quanta_zero] at ha hb
  have happrox := approximates_of_nearest? (Int.mul_nonneg ha hb) (nearest?_of_mul? h)
  rwa [Int.cast_mul, div_div, mul_div_mul_comm, ← Int.cast_natCast (tens 28), ← value_eq,
    ← value_eq] at happrox

/-- **A fraction of a number**, formed as a decimal first, is off in proportion to the number: half
a unit for the product, one and a half times the number for the fraction, and the number once more
for the product of both. -/
theorem abs_value_sub_le_of_fraction {p : Rat} (hp : p ≤ 1) (hf : f.Approximates p)
    (hf1 : f ≤ one) (hb : zero ≤ b) (hc : c.Approximates (f.value * b.value)) :
    |c.value - p * b.value| ≤ (1 + b.value) / tens 27 := by
  have ht : (0 : Rat) < tens 28 := Nat.cast_pos.mpr (tens_pos 28)
  rw [le_iff_value_le, value_one] at hf1
  rw [← value_nonneg] at hb
  have hfraction : |f.value - p| * b.value ≤ 3 / 2 / tens 28 * b.value :=
    mul_le_mul_of_nonneg_right
      (hf.trans (div_le_div_of_nonneg_right (by linarith) (le_of_lt ht))) hb
  have hproduct : |c.value - f.value * b.value| ≤ (1 / 2 + b.value) / tens 28 :=
    hc.trans (div_le_div_of_nonneg_right
      (by linarith [mul_le_of_le_one_left hb hf1]) (le_of_lt ht))
  calc |c.value - p * b.value|
      ≤ |c.value - f.value * b.value| + |f.value * b.value - p * b.value| := abs_sub_le _ _ _
    _ = |c.value - f.value * b.value| + |f.value - p| * b.value := by
        rw [← sub_mul, abs_mul, abs_of_nonneg hb]
    _ ≤ (1 / 2 + b.value) / tens 28 + 3 / 2 / tens 28 * b.value := add_le_add hproduct hfraction
    _ = (1 / 2 + 5 / 2 * b.value) / tens 28 := by ring
    _ ≤ (1 + b.value) * 10 / tens 28 := div_le_div_of_nonneg_right (by linarith) (le_of_lt ht)
    _ = (1 + b.value) / tens 27 := by
        rw [tens_succ 27, Nat.cast_mul, Nat.cast_ofNat, mul_div_mul_right _ _ (by norm_num)]

end Decimal

end StakeAccounting

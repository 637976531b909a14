import Mathlib.Data.Rat.Cast.Order
import Mathlib.Tactic.FieldSimp
import StakeAccounting.Proofs.Decimal.Directed
import StakeAccounting.Proofs.Decimal.Quotient

/-!
# Numbers in units of a decimal place

A number on a grid that is not negative **counts** so many units of `10^-places`
(`Decimal.Counts`). As long as the counts stay below the bound of a mantissa, decimals
calculate with them as whole numbers do: sums and products are exact, and a quotient that
is rounded down to the units of the answer is the whole quotient of the counts
(`exists_div?_of_counts`).

The last is the one that needs an argument, since such a quotient is rounded twice, first
to the nearest decimal and then down. The first rounding could go up across a unit, and
does where few places are kept; here enough of them are kept for the error to stay below
what a quotient of whole numbers is short of the next unit (`nearestRatio?_div`).
-/

namespace StakeAccounting

namespace Decimal

variable {places n m j : Nat} {a b : Decimal}

/-! ## The value as a fraction -/

/-- The powers of ten among the fractions. -/
theorem natCast_tens (k : Nat) : (tens k : Rat) = 10 ^ k := Nat.cast_pow 10 k

/-- The value counts the quanta. -/
theorem value_eq (a : Decimal) : a.value = a.quanta / (tens 28 : Int) := by
  have hs := a.scale_le
  have hsplit : tens 28 = tens (28 - a.scale) * tens a.scale := by
    rw [← tens_add, Nat.sub_add_cancel hs]
  have h₁ : (tens a.scale : Rat) ≠ 0 := Nat.cast_ne_zero.mpr (Nat.ne_of_gt (tens_pos _))
  have h₂ : (tens (28 - a.scale) : Rat) ≠ 0 := Nat.cast_ne_zero.mpr (Nat.ne_of_gt (tens_pos _))
  rw [value, Rat.mkRat_eq_div, quanta, hsplit]
  push_cast
  field_simp

/-- The order of decimals is that of their values. -/
theorem le_iff_value_le : a ≤ b ↔ a.value ≤ b.value := by
  have ht : (0 : Rat) < ((tens 28 : Int) : Rat) :=
    Int.cast_pos.mpr (Int.natCast_pos.mpr (tens_pos 28))
  rw [le_def, value_eq, value_eq, div_le_div_iff_of_pos_right ht, Int.cast_le]

theorem lt_iff_value_lt : a < b ↔ a.value < b.value := by
  rw [← Decimal.not_le, le_iff_value_le, not_le]

theorem same_iff_value_eq : a.Same b ↔ a.value = b.value := by
  rw [le_antisymm_iff, ← le_iff_value_le, ← le_iff_value_le, le_def, le_def, same_def]
  omega

/-- The smaller of two decimals is worth the smaller of their values. -/
theorem value_min (a b : Decimal) : (a.min b).value = min a.value b.value := by
  unfold Decimal.min
  split
  · rename_i h
    exact (min_eq_right (le_iff_value_le.mp (Decimal.le_of_lt h))).symm
  · rename_i h
    exact (min_eq_left (le_iff_value_le.mp (Decimal.not_lt.mp h))).symm

/-- The greater of two decimals is worth the greater of their values. -/
theorem value_max (a b : Decimal) : (a.max b).value = max a.value b.value := by
  unfold Decimal.max
  split
  · rename_i h
    exact (max_eq_right (le_iff_value_le.mp (Decimal.le_of_lt h))).symm
  · rename_i h
    exact (max_eq_left (le_iff_value_le.mp (Decimal.not_lt.mp h))).symm

@[simp] theorem value_zero : zero.value = 0 := rfl

@[simp] theorem value_one : one.value = 1 := rfl

theorem value_nonneg : 0 ≤ a.value ↔ zero ≤ a := by
  rw [le_iff_value_le, value_zero]

/-! ## Counting units -/

/-- **So many units** of `10^-places`. -/
def Counts (places n : Nat) (a : Decimal) : Prop := a.quanta = (n : Int) * tens (28 - places)

instance (places n : Nat) (a : Decimal) : Decidable (a.Counts places n) :=
  inferInstanceAs (Decidable (_ = _))

theorem Counts.onGrid (h : a.Counts places n) : a.OnGrid places := by
  unfold OnGrid
  rw [h]
  exact Int.dvd_mul_left _ _

theorem Counts.nonneg (h : a.Counts places n) : zero ≤ a := by
  rw [le_def, quanta_zero, h]
  exact Int.mul_nonneg (Int.natCast_nonneg _) (Int.natCast_nonneg _)

/-- A number on the grid that is not negative counts some units. -/
theorem OnGrid.exists_counts (h : a.OnGrid places) (h0 : zero ≤ a) : ∃ n, a.Counts places n := by
  obtain ⟨k, hk⟩ := h
  have ht : (0 : Int) < tens (28 - places) := Int.natCast_pos.mpr (tens_pos _)
  rw [le_def, quanta_zero, hk] at h0
  have hnonneg : 0 ≤ k := Int.nonneg_of_mul_nonneg_right h0 ht
  refine ⟨k.toNat, ?_⟩
  unfold Counts
  rw [hk, Int.mul_comm, Int.toNat_of_nonneg hnonneg]

/-- So many units are worth a fraction with a power of ten below. -/
theorem value_of_quanta {k : Int} (h : a.quanta = k * tens (28 - places)) (hp : places ≤ 28) :
    a.value = (k : Rat) / (tens places : Rat) := by
  have h₁ : (tens places : Rat) ≠ 0 := Nat.cast_ne_zero.mpr (Nat.ne_of_gt (tens_pos _))
  have h₂ : (tens (28 - places) : Rat) ≠ 0 := Nat.cast_ne_zero.mpr (Nat.ne_of_gt (tens_pos _))
  have hsplit : tens 28 = tens (28 - places) * tens places := by
    rw [← tens_add, Nat.sub_add_cancel hp]
  rw [value_eq, h, hsplit]
  push_cast
  field_simp

/-- What a number of units is worth. -/
theorem Counts.value (h : a.Counts places n) (hp : places ≤ 28) :
    a.value = (n : Rat) / (tens places : Rat) :=
  (value_of_quanta h hp).trans (by rw [Int.cast_natCast])

theorem Counts.le_iff (ha : a.Counts places n) (hb : b.Counts places m) : a ≤ b ↔ n ≤ m := by
  have ht : (0 : Int) < tens (28 - places) := Int.natCast_pos.mpr (tens_pos _)
  rw [le_def, ha, hb, Int.mul_le_mul_right ht, Int.ofNat_le]

/-- What a number on the grid is worth is a whole number of units. -/
theorem OnGrid.exists_value (h : a.OnGrid places) (hp : places ≤ 28) :
    ∃ k : Int, a.value = (k : Rat) / (tens places : Rat) := by
  obtain ⟨k, hk⟩ := h
  exact ⟨k, value_of_quanta (by rw [hk, Int.mul_comm]) hp⟩

/-- **On a grid, less than one unit more is nothing more.** -/
theorem OnGrid.value_le_of_lt (ha : a.OnGrid places) (hb : b.OnGrid places) (hp : places ≤ 28)
    (h : a.value < b.value + ((j : Rat) + 1) / (tens places : Rat)) :
    a.value ≤ b.value + (j : Rat) / (tens places : Rat) := by
  have ht : (0 : Rat) < (tens places : Rat) := Nat.cast_pos.mpr (tens_pos _)
  obtain ⟨k, hk⟩ := ha.exists_value hp
  obtain ⟨l, hl⟩ := hb.exists_value hp
  rw [hk, hl, ← add_div, div_lt_div_iff_of_pos_right ht] at h
  rw [hk, hl, ← add_div, div_le_div_iff_of_pos_right ht]
  have hint : k < l + (j + 1) := by exact_mod_cast h
  have hle : k ≤ l + j := by omega
  exact_mod_cast hle

/-- Counts below the bound of a mantissa are below the limit of their grid. -/
theorem mul_lt_gridLimit (h : n < mantissaBound) :
    (n : Int) * tens (28 - places) < gridLimit places :=
  Int.mul_lt_mul_of_pos_right (Int.ofNat_lt.mpr h) (Int.natCast_pos.mpr (tens_pos _))

/-- A count is above the limit of its grid on the other side. -/
theorem neg_gridLimit_lt_mul : -gridLimit places < (n : Int) * tens (28 - places) := by
  have hlimit : 0 < gridLimit places :=
    Int.mul_pos (by decide) (Int.natCast_pos.mpr (tens_pos _))
  have := Int.mul_nonneg (Int.natCast_nonneg n) (Int.natCast_nonneg (tens (28 - places)))
  omega

/-- **Sums of counts are exact.** -/
theorem exists_add?_of_counts (hp : places ≤ 28) (ha : a.Counts places n) (hb : b.Counts places m)
    (hfit : n + m < mantissaBound) : ∃ c, add? a b = some c ∧ c.Counts places (n + m) := by
  have hsum : a.quanta + b.quanta = ((n + m : Nat) : Int) * tens (28 - places) := by
    rw [ha, hb, ← Int.add_mul, Int.natCast_add]
  obtain ⟨c, hc, hq, -⟩ := exists_add?_of_onGrid hp ha.onGrid hb.onGrid
    (by rw [hsum]; exact neg_gridLimit_lt_mul) (by rw [hsum]; exact mul_lt_gridLimit hfit)
  exact ⟨c, hc, hq.trans hsum⟩

/-- **Differences of counts are exact.** -/
theorem exists_sub?_of_counts (hp : places ≤ 28) (ha : a.Counts places n) (hb : b.Counts places m)
    (hle : m ≤ n) (hfit : n < mantissaBound) :
    ∃ c, sub? a b = some c ∧ c.Counts places (n - m) := by
  have hdiff : a.quanta - b.quanta = ((n - m : Nat) : Int) * tens (28 - places) := by
    rw [ha, hb, ← Int.sub_mul, Int.ofNat_sub hle]
  obtain ⟨c, hc, hq, -⟩ := exists_sub?_of_onGrid hp ha.onGrid hb.onGrid
    (by rw [hdiff]; exact neg_gridLimit_lt_mul)
    (by rw [hdiff]; exact mul_lt_gridLimit (Nat.lt_of_le_of_lt (Nat.sub_le n m) hfit))
  exact ⟨c, hc, hq.trans hdiff⟩

/-- **Products of counts are exact**, and count units of as many places as both factors
have. -/
theorem exists_mul?_of_counts {p q : Nat} (hpq : p + q ≤ 28) (ha : a.Counts p n)
    (hb : b.Counts q m) (hfit : n * m < mantissaBound) :
    ∃ c, mul? a b = some c ∧ c.Counts (p + q) (n * m) := by
  have hexact : a.quanta * b.quanta = ((n * m : Nat) : Int) * tens (28 - (p + q)) * tens 28 := by
    have hsplit : tens (28 - p) * tens (28 - q) = tens (28 - (p + q)) * tens 28 := by
      rw [← tens_add, ← tens_add]
      congr 1
      omega
    calc a.quanta * b.quanta
        = (n : Int) * m * ((tens (28 - p) * tens (28 - q) : Nat) : Int) := by
          rw [ha, hb, Int.natCast_mul]
          ring
      _ = ((n * m : Nat) : Int) * tens (28 - (p + q)) * tens 28 := by
          rw [hsplit, Int.natCast_mul, Int.natCast_mul]
          ring
  have hnearest := nearest?_of_dvd hpq (Int.dvd_mul_left (n * m : Nat) (tens (28 - (p + q)) : Int))
    neg_gridLimit_lt_mul (mul_lt_gridLimit hfit)
  rw [← hexact] at hnearest
  exact exists_mul? hnearest

/-! ## Quotients of counts -/

/-- **A rounded quotient of whole numbers keeps its whole part.** In `tens u` parts of a
unit the quotient `n / d` is rounded to the nearest decimal, which leaves it below the next
unit: the error is half of the last place that is kept, and `n / d` is short of the next
unit by a `d`-th at least. -/
theorem nearestRatio?_div {u d : Nat} (hd : 0 < d) (hu : u ≤ 28) (hdu : d < 2 * tens u)
    (hn : 10 * n < mantissaBound) :
    ∃ q, nearestRatio? (n * tens u) d = some q ∧ q / tens u = n / d := by
  have ht := tens_pos u
  have hwhole : n / d * d ≤ n := Nat.div_mul_le_self n d
  have hfit : n / d + 1 < mantissaBound := by
    have hle := Nat.div_le_self n d
    have hbound : mantissaBound = 79228162514264337593543950336 := rfl
    omega
  obtain ⟨q, hq, -⟩ := nearestRatio?_le (n := n * tens u) hd hfit hu (by
    have hnext := Nat.lt_mul_div_succ n hd
    rw [Nat.mul_right_comm]
    exact Nat.mul_le_mul_right _ (by rw [Nat.mul_comm]; exact Nat.le_of_lt hnext))
  refine ⟨q, hq, Nat.div_eq_of_lt_le ?_ ?_⟩
  · refine le_of_nearestRatio? hd (by omega) hu ?_ hq
    rw [Nat.mul_right_comm]
    exact Nat.mul_le_mul_right _ hwhole
  · obtain ⟨k, -, rfl, -, hfirst⟩ := nearestRatio?_eq_some hq
    -- the last place that is kept is worth less than two `d`-th of a unit
    have hstep : d * tens k < 2 * tens u := by
      cases k with
      | zero => rwa [tens_zero, Nat.mul_one]
      | succ k =>
        have hreach : mantissaBound - 1 < digitsAt (n * tens u) d k :=
          Nat.lt_of_lt_of_le (by decide) (hfirst k (Nat.lt_succ_self k))
        have hmiddle : (2 * (mantissaBound - 1) + 1) * (d * tens k) ≤ 2 * (n * tens u) :=
          ((lt_divHalfEven_iff (Nat.mul_pos hd (tens_pos k))).mp hreach).elim Nat.le_of_lt
            fun h => Nat.le_of_eq h.1
        have hsmall : 2 * (n * tens u) * 10 < (2 * (mantissaBound - 1) + 1) * (2 * tens u) := by
          have hbound : mantissaBound = 79228162514264337593543950336 := rfl
          have hmul := Nat.mul_lt_mul_of_pos_right hn ht
          rw [hbound] at hmul ⊢
          rw [Nat.mul_assoc] at hmul
          omega
        refine Nat.lt_of_mul_lt_mul_left (a := 2 * (mantissaBound - 1) + 1) ?_
        rw [tens_succ, ← Nat.mul_assoc d, ← Nat.mul_assoc]
        exact Nat.lt_of_le_of_lt (Nat.mul_le_mul_right 10 hmiddle) hsmall
    have herror := two_mul_divHalfEven_le (n * tens u) (d * tens k)
    refine Nat.lt_of_mul_lt_mul_right (a := d) ?_
    have hnext : n + 1 ≤ (n / d + 1) * d := by
      have := Nat.lt_mul_div_succ n hd
      rw [Nat.mul_comm]
      exact this
    calc digitsAt (n * tens u) d k * tens k * d
        = divHalfEven (n * tens u) (d * tens k) * (d * tens k) := by unfold digitsAt; ring
      _ < (n + 1) * tens u := by
        rw [Nat.add_mul, Nat.one_mul]
        omega
      _ ≤ (n / d + 1) * d * tens u := Nat.mul_le_mul_right _ hnext
      _ = (n / d + 1) * tens u * d := by ring

/-- **A quotient of counts, rounded down** to the units of the answer, is the whole
quotient. -/
theorem exists_div?_of_counts {p g d : Nat} (hp : p + g ≤ 28) (ha : a.Counts (p + g) n)
    (hb : b.Counts p d) (hd : 0 < d) (hdg : d < 2 * tens (28 - g)) (hn : 10 * n < mantissaBound) :
    ∃ c, div? a b = some c ∧ (c.roundDown g).Counts g (n / d) := by
  have hpos : zero < b := by
    rw [lt_def, quanta_zero, hb]
    exact Int.mul_pos (Int.natCast_pos.mpr hd) (Int.natCast_pos.mpr (tens_pos _))
  have hmap := map_quanta_div?_of_nonneg (a := a) ha.nonneg hpos
  obtain ⟨q, hq, hfloor⟩ := nearestRatio?_div (n := n) hd (Nat.sub_le 28 g) hdg hn
  have hratio : nearestRatio? (a.quanta.toNat * tens 28) b.quanta.toNat = some q := by
    have hdividend : a.quanta.toNat * tens 28 = n * tens (28 - g) * tens (28 - p) := by
      rw [ha, ← Int.natCast_mul, Int.toNat_natCast, Nat.mul_assoc, Nat.mul_assoc, ← tens_add,
        ← tens_add]
      congr 2
      omega
    have hdivisor : b.quanta.toNat = d * tens (28 - p) := by
      rw [hb, ← Int.natCast_mul, Int.toNat_natCast]
    rw [hdividend, hdivisor, nearestRatio?_mul_mul (tens_pos _), hq]
  rw [hratio, Option.map_some] at hmap
  obtain ⟨c, hc, hcq⟩ := Option.map_eq_some_iff.mp hmap
  refine ⟨c, hc, ?_⟩
  unfold Counts
  rw [quanta_roundDown, hcq, ← Int.natCast_ediv, hfloor]

end Decimal

end StakeAccounting

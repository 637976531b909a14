import Mathlib.Tactic.NormNum
import StakeAccounting.Auction.Capacity
import StakeAccounting.Proofs.Decimal.Saturation
import StakeAccounting.Proofs.Decimal.Units

/-!
# Capacity is carried to the millionth below

Carrying a value from one rate to another is a product and a quotient, each rounded, and
then a rounding down. For the rates and amounts there are **on chain** – not negative,
whole millionths, and small enough – what comes of the three is simple: the greatest
number of millionths that makes for no more debt than the value did (`Carries`,
`exists_scaleFloor`). It is always there, so nothing is refused.

So for the laws of an auction one has to know only what `Carries` says, and how it orders
the values: at a higher rate there is no more (`Carries.le_self`), at a lower one no less
(`Carries.self_le`).
-/

namespace StakeAccounting

open Decimal

namespace Capacity

/-- The unit of capacities and debts. -/
def millionth : Rat := 1 / 1000000

/-- **A rate on chain**: not negative, in whole millionths, and no more than `10^12`. -/
structure RateOnChain (r : Decimal) : Prop where
  nonneg : .zero ≤ r
  onGrid : r.OnGrid places
  value_le : r.value ≤ 1000000000000

/-- **An amount on chain**: not negative, in whole millionths. -/
structure AmountOnChain (v : Decimal) : Prop where
  nonneg : .zero ≤ v
  onGrid : v.OnGrid places

/-- **The debt an amount makes for** at a rate, times a hundred. -/
def debtAt (v r : Decimal) : Rat := v.value * (100 + r.value)

/-- The debt at a rate that no amount on chain exceeds, times a hundred. -/
def debtLimit : Rat := 1000000000000000

/-- **`c` is what `v` at the rate `r` is carried to at the rate `s`**: the greatest number
of millionths that makes for no more debt. -/
structure Carries (v r s c : Decimal) : Prop where
  onChain : AmountOnChain c
  le : debtAt c s ≤ debtAt v r
  lt : debtAt v r < (c.value + millionth) * (100 + s.value)

variable {v r s c : Decimal}

/-! ## Millionths -/

theorem tens_places : ((tens places : Nat) : Rat) = 1000000 := by norm_num [tens, places]

/-- What a number of millionths is worth. -/
theorem value_of_counts {n : Nat} (h : v.Counts places n) : v.value = n / 1000000 := by
  rw [h.value (by decide), tens_places]

theorem RateOnChain.exists_counts (h : RateOnChain r) :
    ∃ x, r.Counts places x ∧ x ≤ 1000000000000000000 := by
  obtain ⟨x, hx⟩ := h.onGrid.exists_counts h.nonneg
  refine ⟨x, hx, ?_⟩
  have hle := h.value_le
  rw [value_of_counts hx, div_le_iff₀ (by norm_num)] at hle
  norm_num at hle
  exact_mod_cast hle

/-- The debt of an amount, counted. -/
theorem debtAt_of_counts {n x : Nat} (hv : v.Counts places n) (hr : r.Counts places x) :
    debtAt v r = (n * (100000000 + x) : Nat) / 1000000000000 := by
  rw [debtAt, value_of_counts hv, value_of_counts hr]
  push_cast
  ring

/-- **Less than a millionth more is nothing more.** -/
theorem AmountOnChain.value_le_of_lt (hv : AmountOnChain v) (hc : AmountOnChain c) (n : Nat)
    (h : v.value < c.value + (n + 1) * millionth) : v.value ≤ c.value + n * millionth := by
  have hunits : ∀ x : Rat, x * millionth = x / (tens places : Rat) := by
    intro x
    rw [tens_places, millionth]
    ring
  rw [hunits] at h ⊢
  exact hv.onGrid.value_le_of_lt hc.onGrid (by decide) h

theorem AmountOnChain.le_of_lt (hv : AmountOnChain v) (hc : AmountOnChain c)
    (h : v.value < c.value + millionth) : v ≤ c := by
  have hle := hv.value_le_of_lt hc 0 (by rwa [Nat.cast_zero, zero_add, one_mul])
  rwa [Nat.cast_zero, zero_mul, add_zero, ← le_iff_value_le] at hle

/-- An amount makes for more debt at a higher rate. -/
theorem debtAt_le_debtAt (hv : .zero ≤ v) (h : r ≤ s) : debtAt v r ≤ debtAt v s :=
  mul_le_mul_of_nonneg_left (add_le_add_right (le_iff_value_le.mp h) 100) (value_nonneg.mpr hv)

theorem hundred_add_pos (h : .zero ≤ r) : 0 < 100 + r.value := by
  have := value_nonneg.mpr h
  linarith

/-! ## Carrying -/

theorem zero_lt_hundred : zero < hundred := by decide

/-- A hundred percent and a rate is a hundred percent at least. -/
theorem hundred_le_of_add? {d : Decimal} (hr : .zero ≤ r) (h : hundred.add? r = some d) :
    hundred ≤ d := le_of_add? hr h

/-- A hundred percent and a rate on chain have a sum. -/
theorem exists_hundred_add? {x : Nat} (hr : r.Counts places x) (hx : x ≤ 1000000000000000000) :
    ∃ d, hundred.add? r = some d ∧ d.Counts places (100000000 + x) :=
  exists_add?_of_counts (by decide) (show hundred.Counts places 100000000 by decide) hr
    (Nat.lt_of_le_of_lt (Nat.add_le_add_left hx _) (by decide))

/-- **Carrying rounds down once**, however often it rounds. -/
theorem exists_scaleFloor (hv : AmountOnChain v) (hr : RateOnChain r) (hs : RateOnChain s)
    (hlimit : debtAt v r ≤ debtLimit) : ∃ c, scaleFloor v r s = .ok c ∧ Carries v r s c := by
  obtain ⟨n, hn⟩ := hv.onGrid.exists_counts hv.nonneg
  obtain ⟨x, hx, hxle⟩ := hr.exists_counts
  obtain ⟨y, hy, hyle⟩ := hs.exists_counts
  have hfit : n * (100000000 + x) ≤ 1000000000000000000000000000 := by
    rw [debtAt_of_counts hn hx, debtLimit, div_le_iff₀ (by norm_num)] at hlimit
    norm_num at hlimit
    exact_mod_cast hlimit
  obtain ⟨num, hnum, hnumc⟩ := exists_hundred_add? hx hxle
  obtain ⟨den, hden, hdenc⟩ := exists_hundred_add? hy hyle
  obtain ⟨product, hproduct, hproductc⟩ := exists_mul?_of_counts (p := places) (q := places)
    (by decide) hn hnumc (Nat.lt_of_le_of_lt hfit (by decide))
  obtain ⟨quotient, hquotient, hfloor⟩ := exists_div?_of_counts (p := places) (g := places)
    (by decide) hproductc hdenc (by omega)
    (Nat.lt_of_le_of_lt (Nat.add_le_add_left hyle _) (by decide))
    (Nat.lt_of_le_of_lt (Nat.mul_le_mul_left 10 hfit) (by decide))
  refine ⟨quotient.roundDown places, ?_, ⟨hfloor.nonneg, hfloor.onGrid⟩, ?_, ?_⟩
  · rw [scaleFloor]
    simp only [hnum, hproduct, hden, hquotient, bind, Option.bind_some]
    rfl
  · rw [debtAt_of_counts hfloor hy, debtAt_of_counts hn hx]
    exact div_le_div_of_nonneg_right (Nat.cast_le.mpr (Nat.div_mul_le_self _ _)) (by norm_num)
  · have hnext : n * (100000000 + x) <
        (n * (100000000 + x) / (100000000 + y) + 1) * (100000000 + y) := by
      rw [Nat.mul_comm (_ + 1)]
      exact Nat.lt_mul_div_succ _ (by omega)
    rw [debtAt_of_counts hn hx, value_of_counts hfloor, value_of_counts hy, millionth,
      div_lt_iff₀ (by norm_num)]
    refine lt_of_lt_of_eq (Nat.cast_lt.mpr hnext) ?_
    push_cast
    ring

/-- **The capacity at a rate** is carried from the one at the maximum, also where it is
taken as it is. -/
theorem exists_atRate (hv : AmountOnChain v) (hr : RateOnChain r) (hs : RateOnChain s)
    (hsr : s ≤ r) (hlimit : debtAt v r ≤ debtLimit) :
    ∃ c, atRate v r s = .ok c ∧ Carries v r s c := by
  have hpos := hundred_add_pos hs.nonneg
  have hunit : 0 < millionth * (100 + s.value) := mul_pos (by norm_num [millionth]) hpos
  unfold atRate
  split
  · rename_i hkept
    have hsame : debtAt v s = debtAt v r := by
      rcases hkept with hle | hzero
      · rw [debtAt, debtAt, same_iff_value_eq.mp (same_of_le hsr hle)]
      · have hvalue := same_iff_value_eq.mp (show v.Same .zero from (isZero_iff v).mp hzero)
        rw [debtAt, debtAt, hvalue, value_zero, zero_mul, zero_mul]
    refine ⟨v, rfl, hv, le_of_eq hsame, ?_⟩
    rw [← hsame, debtAt, add_mul]
    linarith
  · exact exists_scaleFloor hv hr hs hlimit

/-- **The debt issued** is the amount carried to a rate of zero. -/
theorem exists_debtFor (hv : AmountOnChain v) (hr : RateOnChain r)
    (hlimit : debtAt v r ≤ debtLimit) : ∃ d, debtFor v r = .ok d ∧ Carries v r .zero d :=
  exists_scaleFloor hv hr ⟨Decimal.le_refl _, onGrid_zero _, by rw [value_zero]; norm_num⟩ hlimit

/-! ## How carrying orders the values -/

/-- At a higher rate there is no more. -/
theorem Carries.le_self (h : Carries v r s c) (hv : .zero ≤ v) (hr : .zero ≤ r) (hrs : r ≤ s) :
    c ≤ v := by
  have hdebt : debtAt c s ≤ debtAt v s := le_trans h.le (debtAt_le_debtAt hv hrs)
  exact le_iff_value_le.mpr
    (le_of_mul_le_mul_right hdebt (hundred_add_pos (Decimal.le_trans hr hrs)))

/-- At a lower rate there is no less. -/
theorem Carries.self_le (h : Carries v r s c) (hv : AmountOnChain v) (hs : .zero ≤ s)
    (hsr : s ≤ r) : v ≤ c := by
  have hdebt : debtAt v s < (c.value + millionth) * (100 + s.value) :=
    lt_of_le_of_lt (debtAt_le_debtAt hv.nonneg hsr) h.lt
  exact hv.le_of_lt h.onChain (lt_of_mul_lt_mul_right hdebt (le_of_lt (hundred_add_pos hs)))

end Capacity

end StakeAccounting

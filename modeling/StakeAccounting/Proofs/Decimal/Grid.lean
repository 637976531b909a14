import Mathlib.Algebra.BigOperators.Ring.List
import Mathlib.Algebra.Order.BigOperators.Group.List
import StakeAccounting.Proofs.Decimal.Exact

/-!
# Amounts on a common grid

Sums of decimals are rounded, so they are neither associative nor exact in
general. They are where it matters: amounts that are whole multiples of one
`10^-places` and together stay below `2^96` of these units are added exactly
(`exists_add?_of_onGrid`), in whatever scales they are written. Where none of
them is negative, the bound on the whole sum is one on all sums of some of them,
so they have exact sums (`sumsExact_of_dvd`).
-/

namespace StakeAccounting

namespace Decimal

/-- **On the grid** of so many decimal places: a whole multiple of
`10^-places`. -/
def OnGrid (places : Nat) (a : Decimal) : Prop := (tens (28 - places) : Int) ∣ a.quanta

instance (places : Nat) (a : Decimal) : Decidable (a.OnGrid places) :=
  inferInstanceAs (Decidable (_ ∣ _))

/-- What sums on a grid have to stay below: `2^96` of its units, in quanta. -/
def gridLimit (places : Nat) : Int := mantissaBound * tens (28 - places)

theorem OnGrid.neg {places : Nat} {a : Decimal} (h : a.OnGrid places) : (-a).OnGrid places := by
  unfold OnGrid at h ⊢
  rw [quanta_neg]
  exact Int.dvd_neg.mpr h

protected theorem OnGrid.min {places : Nat} {a b : Decimal} (ha : a.OnGrid places)
    (hb : b.OnGrid places) : (a.min b).OnGrid places := by
  unfold Decimal.min
  split <;> assumption

protected theorem OnGrid.max {places : Nat} {a b : Decimal} (ha : a.OnGrid places)
    (hb : b.OnGrid places) : (a.max b).OnGrid places := by
  unfold Decimal.max
  split <;> assumption

theorem onGrid_zero (places : Nat) : zero.OnGrid places := Int.dvd_zero _

/-- **A number on the grid that is not too large is a decimal**, so it is not
rounded. -/
theorem nearest?_of_dvd {places : Nat} {n : Int} (hp : places ≤ 28)
    (hn : (tens (28 - places) : Int) ∣ n) (hlow : -gridLimit places < n)
    (hhigh : n < gridLimit places) : nearest? (n * tens 28) = some n := by
  obtain ⟨k, rfl⟩ := hn
  have ht : (0 : Int) < tens (28 - places) := Int.natCast_pos.mpr (tens_pos _)
  have hk : k.natAbs < mantissaBound := by
    unfold gridLimit at hlow hhigh
    have h1 : -(mantissaBound : Int) < k := by
      refine Int.lt_of_mul_lt_mul_left (a := (tens (28 - places) : Int)) ?_ (Int.le_of_lt ht)
      rw [Int.mul_neg, Int.mul_comm _ (mantissaBound : Int)]
      exact hlow
    have h2 : k < (mantissaBound : Int) := by
      refine Int.lt_of_mul_lt_mul_left (a := (tens (28 - places) : Int)) ?_ (Int.le_of_lt ht)
      rw [Int.mul_comm _ (mantissaBound : Int)]
      exact hhigh
    omega
  have hq : quanta ⟨decide (k < 0), k.natAbs, places, hk, hp⟩ = tens (28 - places) * k := by
    rw [quanta, coefficient_eq_signed, Int.mul_comm]
    dsimp only
    unfold signed
    by_cases hneg : k < 0
    · rw [decide_eq_true hneg, if_pos rfl]
      congr 1
      omega
    · rw [decide_eq_false hneg, if_neg (by decide)]
      congr 1
      omega
  rw [← hq, nearest?_quanta]

/-- **Rounding does not leave a grid**: as many places are kept as fit, and where that is fewer
than the grid has, the rounded number is on a coarser one. -/
theorem dvd_of_nearest? {places : Nat} {n q : Int} (hn : (tens (28 - places) : Int) ∣ n)
    (h : nearest? (n * tens 28) = some q) : (tens (28 - places) : Int) ∣ q := by
  obtain ⟨k, hlow, -, rfl, -⟩ := nearest?_eq_some h
  by_cases hfew : 28 - places ≤ k - 28
  · -- the places of the grid are not all kept
    refine Int.dvd_mul_of_dvd_right ?_
    rw [Int.natCast_dvd_natCast, show k - 28 = 28 - places + (k - 28 - (28 - places)) by omega,
      tens_add]
    exact Nat.dvd_mul_right _ _
  · -- all places of the grid are kept, so nothing is dropped that is not zero
    obtain ⟨m, hm⟩ := Int.natCast_dvd.mp hn
    have hexact : n.natAbs = m * tens (28 - places - (k - 28)) * tens (k - 28) := by
      rw [hm, Nat.mul_assoc, ← tens_add, show 28 - places - (k - 28) + (k - 28) = 28 - places by
        omega, Nat.mul_comm]
    have hdigits : divHalfEven (n * (tens 28 : Int)).natAbs (tens k) =
        m * tens (28 - places - (k - 28)) := by
      rw [Int.natAbs_mul, Int.natAbs_natCast, show tens k = tens (k - 28) * tens 28 by
        rw [← tens_add, Nat.sub_add_cancel hlow], divHalfEven_mul_mul _ _ (tens_pos 28), hexact,
        divHalfEven_mul _ _ (tens_pos _)]
    rw [hdigits, Int.natCast_dvd, Int.natAbs_mul, Int.natAbs_natCast]
    unfold signed
    split
    · rw [Int.natAbs_neg, Int.natAbs_natCast, ← hexact, hm]
      exact Nat.dvd_mul_right _ _
    · rw [Int.natAbs_natCast, ← hexact, hm]
      exact Nat.dvd_mul_right _ _

/-- A difference on a grid is on it, rounded or not. -/
theorem OnGrid.minus {places : Nat} {a b c : Decimal} (ha : a.OnGrid places)
    (hb : b.OnGrid places) (h : a.minus b = .ok c) : c.OnGrid places :=
  dvd_of_nearest? (Int.dvd_sub ha hb) (nearest?_of_sub? (minus_eq_ok.mp h))

/-- **Sums on a grid are exact.** -/
theorem exists_add?_of_onGrid {places : Nat} {a b : Decimal} (hp : places ≤ 28)
    (ha : a.OnGrid places) (hb : b.OnGrid places) (hlow : -gridLimit places < a.quanta + b.quanta)
    (hhigh : a.quanta + b.quanta < gridLimit places) :
    ∃ c, add? a b = some c ∧ c.quanta = a.quanta + b.quanta ∧ c.OnGrid places := by
  have hdvd := Int.dvd_add ha hb
  obtain ⟨c, hc, hq⟩ := exists_add? (nearest?_of_dvd hp hdvd hlow hhigh)
  refine ⟨c, hc, hq, ?_⟩
  unfold OnGrid
  rwa [hq]

/-- **Differences on a grid are exact.** -/
theorem exists_sub?_of_onGrid {places : Nat} {a b : Decimal} (hp : places ≤ 28)
    (ha : a.OnGrid places) (hb : b.OnGrid places) (hlow : -gridLimit places < a.quanta - b.quanta)
    (hhigh : a.quanta - b.quanta < gridLimit places) :
    ∃ c, sub? a b = some c ∧ c.quanta = a.quanta - b.quanta ∧ c.OnGrid places := by
  have hdvd := Int.dvd_sub ha hb
  obtain ⟨c, hc, hq⟩ := exists_sub? (nearest?_of_dvd hp hdvd hlow hhigh)
  refine ⟨c, hc, hq, ?_⟩
  unfold OnGrid
  rwa [hq]

/-- **Numbers on a grid have exact sums**, if none is negative and there is room for all. -/
theorem sumsExact_of_dvd {places : Nat} {qs : List Int} (hp : places ≤ 28)
    (hqs : ∀ q ∈ qs, (tens (28 - places) : Int) ∣ q ∧ 0 ≤ q) (hlt : qs.sum < gridLimit places) :
    SumsExact qs := by
  intro xs hxs
  have hdvd : (tens (28 - places) : Int) ∣ xs.sum :=
    List.dvd_sum fun q hq => (hqs q (hxs.subset hq)).1
  have hnonneg : 0 ≤ xs.sum := List.sum_nonneg fun q hq => (hqs q (hxs.subset hq)).2
  have hle : xs.sum ≤ qs.sum := hxs.sum_le_sum fun q hq => (hqs q hq).2
  exact exact_iff.mpr (nearest?_of_dvd hp hdvd (by omega) (by omega))

/-- **A list on a grid** has its exact sum. -/
theorem exists_sum_of_onGrid {α : Type} {places : Nat} {part : α → Decimal} {xs : List α}
    (hp : places ≤ 28) (hxs : ∀ x ∈ xs, (part x).OnGrid places ∧ 0 ≤ (part x).quanta)
    (hlt : (xs.map fun x => (part x).quanta).sum < gridLimit places) :
    ∃ c, Decimal.sum (xs.map part) = .ok c ∧ c.quanta = (xs.map fun x => (part x).quanta).sum := by
  refine exists_sum_of_exact (sumsExact_of_dvd hp (fun q hq => ?_) hlt)
  obtain ⟨x, hx, rfl⟩ := List.mem_map.mp hq
  exact hxs x hx

end Decimal

end StakeAccounting

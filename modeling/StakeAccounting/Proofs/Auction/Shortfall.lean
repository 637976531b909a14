import StakeAccounting.Proofs.Auction.Rate
import StakeAccounting.Proofs.Decimal.Error
import StakeAccounting.Settings

/-!
# Rates fall short where the product is rounded down

A rate is rounded up, so that it is never reported below what the curve says. But what is rounded
up is the product of the maximum and a fraction as a decimal, and that has been rounded before, to
the nearest. Where the product has more digits than a decimal holds, it may have gone down, and
then rounding up need not bring it back: between a number and the decimal nearest to it there is no
other decimal, so where the rounded product is on the grid of the curve, rounding up leaves it
there, and where it is not, rounding up goes past the exact product (`roundUp_lt_iff`).

So there is one way for a rate to fall short (`rateAt_lt_iff`): the product is rounded down, to a
number on the grid, and the least rate is too low to make up for it. It falls short by half a unit
of the last place that is kept at most, and not at all where the product has room for its digits.
-/

namespace StakeAccounting

open Decimal

namespace Decimal

variable {places : Nat} {a : Decimal} {n : Int}

/-- A value is compared with units of `10^-56` as its quanta are. -/
theorem value_lt_iff {x : Rat} (hx : x = n / tens 28 / tens 28) :
    a.value < x ↔ a.quanta * tens 28 < n := by
  have ht : (0 : Rat) < tens 28 := Nat.cast_pos.mpr (tens_pos 28)
  rw [hx, value_eq, Int.cast_natCast, div_lt_div_iff_of_pos_right ht, lt_div_iff₀ ht]
  exact_mod_cast Iff.rfl

/-- **Rounding up the nearest decimal** stays below a number exactly if that decimal is below it
and on the grid. -/
theorem roundUp_lt_iff (h : nearest? n = some a.quanta) :
    (a.roundUp places).quanta * tens 28 < n ↔ a.quanta * tens 28 < n ∧ a.OnGrid places := by
  constructor
  · intro hlt
    -- what is rounded up is a decimal, too, and none is nearer than the first
    have hnear : a.roundUp places ≤ a :=
      nearest?_le_nearest? (nearest?_quanta _) h (Int.le_of_lt hlt)
    have hsame : (a.roundUp places).quanta = a.quanta := same_of_le hnear (le_roundUp places a)
    have hgrid := onGrid_roundUp places a
    unfold OnGrid at hgrid ⊢
    rw [hsame] at hlt hgrid
    exact ⟨hlt, hgrid⟩
  · rintro ⟨hlt, hgrid⟩
    rwa [(same_def _ _).mp hgrid.roundUp_same]

end Decimal

namespace RateCurve

variable {c : RateCurve} {offset : UInt64} {maxRate scaled : Decimal}

/-! ## The rate on the curve -/

/-- **The rate that the curve says**: the listed fraction of the maximum, without any rounding. -/
def exactRate (offset : UInt64) (h : offset.toNat < fractions.length) (maxRate : Decimal) : Rat :=
  maxRate.value * fractions[offset.toNat] / tens fractionPlaces

/-- The exact rate in units of `10^-56`. -/
theorem exactRate_eq (h : offset.toNat < fractions.length) :
    exactRate offset h maxRate =
      ((maxRate.quanta * fractionQuanta offset h : Int) : Rat) / tens 28 / tens 28 := by
  have h₁ : (tens 16 : Rat) ≠ 0 := Nat.cast_ne_zero.mpr (Nat.ne_of_gt (tens_pos _))
  have h₂ : (tens 12 : Rat) ≠ 0 := Nat.cast_ne_zero.mpr (Nat.ne_of_gt (tens_pos _))
  rw [exactRate, value_eq, fractionQuanta, show fractionPlaces = 12 from rfl,
    show tens 28 = tens 16 * tens 12 from tens_add 16 12]
  push_cast
  field_simp

/-- It does not exceed the maximum. -/
theorem exactRate_le (hpos : .zero < maxRate) (h : offset.toNat < fractions.length) :
    exactRate offset h maxRate ≤ maxRate.value := by
  refine not_lt.mp fun hlt => ?_
  rw [value_lt_iff (exactRate_eq h)] at hlt
  have hle := Int.mul_le_mul_of_nonneg_left (Int.ofNat_le.mpr (fractionQuanta_le h))
    (Int.le_of_lt (show 0 < maxRate.quanta from hpos))
  omega

/-- **Where the product has room for its digits**, it is not rounded. -/
theorem value_scaled (hpos : .zero < maxRate) (h : offset.toNat < fractions.length)
    (hplaces : maxRate.scale + fractionPlaces ≤ 28)
    (hdigits : maxRate.mantissa * fractions[offset.toNat] < mantissaBound)
    (hq : nearest? (maxRate.quanta * fractionQuanta offset h) = some scaled.quanta) :
    scaled.value = exactRate offset h maxRate := by
  have ht : (tens 28 : Rat) ≠ 0 := Nat.cast_ne_zero.mpr (Nat.ne_of_gt (tens_pos 28))
  let product : Decimal := ⟨false, maxRate.mantissa * fractions[offset.toNat],
    maxRate.scale + fractionPlaces, hdigits, hplaces⟩
  have hexact : maxRate.quanta * fractionQuanta offset h = product.quanta * tens 28 := by
    have hp : fractionPlaces = 12 := rfl
    have hsplit : tens (28 - maxRate.scale) * tens 16 =
        tens (28 - (maxRate.scale + fractionPlaces)) * tens 28 := by
      rw [← tens_add, ← tens_add]
      congr 1
      omega
    rw [quanta_of_nonneg (Int.le_of_lt (show 0 < maxRate.quanta from hpos)), fractionQuanta,
      ← Int.natCast_mul, Nat.mul_mul_mul_comm, hsplit]
    push_cast
    exact (Int.mul_assoc ..).symm
  rw [hexact, nearest?_quanta] at hq
  rw [exactRate_eq h, hexact, value_eq, ← Option.some.inj hq, Int.cast_mul, Int.cast_natCast,
    mul_div_cancel_right₀ _ ht]

/-! ## What is held -/

/-- **The held rate is below** a rate that the maximum reaches, exactly if the rounded rate and the
least one are. -/
theorem held_lt_iff {x : Rat} (hx : x ≤ maxRate.value) :
    (c.held maxRate scaled).value < x ↔
      (scaled.roundUp c.rateDecimals.toNat).value < x ∧ c.minRate.value < x := by
  rw [held, value_min, value_max, value_min, min_lt_iff, max_lt_iff, min_lt_iff,
    or_iff_left (not_lt.mpr hx), or_iff_left (not_lt.mpr hx)]

/-- Held, a scaled rate is no lower, as far as the maximum allows it. -/
theorem min_le_held (c : RateCurve) (maxRate scaled : Decimal) :
    min scaled.value maxRate.value ≤ (c.held maxRate scaled).value := by
  have hup := le_iff_value_le.mp (le_roundUp c.rateDecimals.toNat scaled)
  rw [held, value_min, value_max]
  exact min_le_min_right _ (le_max_of_le_left hup)

/-! ## When a rate falls short -/

/-- **When a rate falls short of the curve.** For every curve and positive maximum, and at every
block of the window: the rate is below what the curve says, as far as the maximum allows that,
exactly if the product of the maximum and the listed fraction is rounded down to a number on the
grid of the curve, and the least rate is below as well. It is then short by no more than half a unit
of the last place there is, and the `10^28`-th part of the rate. Where the product has no more
places and digits than a decimal, the rate does not fall short. -/
theorem rateAt_lt_iff (c : RateCurve) (hpos : .zero < maxRate)
    (h : offset.toNat < fractions.length) :
    ∃ f scaled r, fraction? offset = some f ∧ maxRate.times f = .ok scaled ∧
      c.rateAt offset maxRate = .ok r ∧
      (r.value < min maxRate.value (exactRate offset h maxRate) ↔
        scaled.value < exactRate offset h maxRate ∧ scaled.OnGrid c.rateDecimals.toNat ∧
          c.minRate.value < exactRate offset h maxRate) ∧
      exactRate offset h maxRate ≤ r.value + (1 / 2 + exactRate offset h maxRate) / tens 28 ∧
      (maxRate.scale + fractionPlaces ≤ 28 →
        maxRate.mantissa * fractions[offset.toNat] < mantissaBound →
        min maxRate.value (exactRate offset h maxRate) ≤ r.value) := by
  obtain ⟨f, scaled, hf, hscaled, hq, -⟩ := exists_times hpos h
  have hle := exactRate_le hpos h
  have hfalls : (c.held maxRate scaled).value < min maxRate.value (exactRate offset h maxRate) ↔
      scaled.value < exactRate offset h maxRate ∧ scaled.OnGrid c.rateDecimals.toNat ∧
        c.minRate.value < exactRate offset h maxRate := by
    rw [min_eq_right hle, held_lt_iff hle, value_lt_iff (exactRate_eq h), roundUp_lt_iff hq,
      ← value_lt_iff (exactRate_eq h), and_assoc]
  refine ⟨f, scaled, _, hf, hscaled, rateAt_of_times hpos hf hscaled, hfalls, ?_,
    fun hplaces hdigits => ?_⟩
  · have hnonneg : 0 ≤ maxRate.quanta * fractionQuanta offset h :=
      Int.mul_nonneg (Int.le_of_lt hpos) (Int.natCast_nonneg _)
    have hclose : scaled.Approximates (exactRate offset h maxRate) := by
      rw [exactRate_eq h]
      exact approximates_of_nearest? hnonneg hq
    have hbound := le_trans (abs_nonneg _) hclose
    rcases min_le_iff.mp (min_le_held c maxRate scaled) with hlow | hmax
    · have hoff := hclose.le_value
      linarith
    · linarith
  · have hexact := value_scaled hpos h hplaces hdigits hq
    exact not_lt.mp fun hshort => absurd hexact (ne_of_lt (hfalls.mp hshort).1)

/-- **The curve of the protocol falls short**, although it passes every check. At a maximum of
about four percent, the millionth of the exact rate at the first block is followed by 22 zeros;
these are all that the product has room for, so the rest is dropped and there is nothing to round
up. -/
theorem rate_below_curve :
    let maxRate : Decimal := ⟨false, 40000026812560584095539290978, 28, by decide, by decide⟩
    ∃ (h : (1 : UInt64).toNat < fractions.length) (r : Decimal),
      Settings.curveFault? .standard = none ∧ RateCurve.standard.rateAt 1 maxRate = .ok r ∧
      r.Same ⟨false, 1117662, 6, by decide, by decide⟩ ∧
      r.value < min maxRate.value (exactRate 1 h maxRate) :=
  ⟨by decide, _, by decide, rfl, by decide +kernel, by decide +kernel⟩

/-- A great maximum leaves no room for any places, so the rate is rounded to a whole number, and
it falls short by more than a quarter. -/
theorem rateAt_lt_iff_great :
    let maxRate : Decimal := ⟨false, 50000000000000000000000000001, 0, by decide, by decide⟩
    .zero < maxRate ∧ ∃ (h : (1 : UInt64).toNat < fractions.length) (r : Decimal),
      RateCurve.standard.rateAt 1 maxRate = .ok r ∧
      r.value < min maxRate.value (exactRate 1 h maxRate) ∧
      exactRate 1 h maxRate - r.value = 279415312704 / 1000000000000 := by
  intro maxRate
  obtain ⟨f, scaled, r, hf, hscaled, hr, hfalls, -, -⟩ := rateAt_lt_iff .standard
    (show .zero < maxRate by decide) (show (1 : UInt64).toNat < fractions.length by decide)
  obtain rfl : (⟨false, 279415312704, 12, by decide, by decide⟩ : Decimal) = f :=
    Option.some.inj hf
  have hproduct : maxRate.times ⟨false, 279415312704, 12, by decide, by decide⟩ =
      .ok ⟨false, 13970765635200000000000000000, 0, by decide, by decide⟩ := by decide +kernel
  obtain rfl := Except.ok.inj (hproduct.symm.trans hscaled)
  have hrate : RateCurve.standard.rateAt 1 maxRate =
      .ok ⟨false, 13970765635200000000000000000, 0, by decide, by decide⟩ := by decide +kernel
  obtain rfl := Except.ok.inj (hrate.symm.trans hr)
  exact ⟨by decide, by decide, _, hr, hfalls.mpr (by decide +kernel), by decide +kernel⟩

end RateCurve

end StakeAccounting

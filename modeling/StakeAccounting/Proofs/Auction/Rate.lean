import StakeAccounting.Auction.Curve
import StakeAccounting.Proofs.Decimal.Directed
import StakeAccounting.Proofs.Decimal.Saturation

/-!
# The rate climbs to the maximum

Every curve has a rate at every offset, for every maximum (`exists_rateAt`): a fraction of
the maximum cannot be out of range. The rate is never negative, it exceeds no maximum that
is not negative, it never falls as the offset grows (`rateAt_le_rateAt`), and behind the
window it is the maximum.

The climb has to be followed through four steps, each of which keeps the order: the listed
fractions rise, a product with a greater fraction is not rounded to less, rounding up keeps
the order, and so do the two bounds the result is held between. With a maximum, a least
rate and a rounding on one grid, the rate is on it, too (`onGrid_rateAt`). `rateAt_climbs` says
all that is known of a curve without any assumption on it.
-/

namespace StakeAccounting

open Decimal

namespace RateCurve

variable {c : RateCurve} {offset offset' : UInt64} {maxRate r r' : Decimal}

/-! ## The listed fractions -/

/-- The fractions rise. -/
theorem fractions_sorted : fractions.Pairwise (· ≤ ·) := by decide

/-- The quanta of the listed fraction. -/
def fractionQuanta (offset : UInt64) (h : offset.toNat < fractions.length) : Nat :=
  fractions[offset.toNat] * tens 16

theorem fractionQuanta_le (h : offset.toNat < fractions.length) :
    fractionQuanta offset h ≤ tens 28 :=
  Nat.mul_le_mul_right (tens 16) (fractions_le _ (List.getElem_mem h))

theorem fractionQuanta_mono (h : offset.toNat < fractions.length)
    (h' : offset'.toNat < fractions.length) (hle : offset ≤ offset') :
    fractionQuanta offset h ≤ fractionQuanta offset' h' := by
  rw [UInt64.le_iff_toNat_le] at hle
  refine Nat.mul_le_mul_right (tens 16) ?_
  rcases Nat.lt_or_eq_of_le hle with hlt | heq
  · exact List.pairwise_iff_getElem.mp fractions_sorted _ _ h h' hlt
  · exact Nat.le_of_eq (by congr 1)

/-- Inside the window there is a fraction. -/
theorem exists_fraction? (h : offset.toNat < fractions.length) :
    ∃ f, fraction? offset = some f ∧ f.quanta = fractionQuanta offset h := by
  have hle := fractions_le _ (List.getElem_mem h)
  have hfit : fractions[offset.toNat] < mantissaBound := Nat.lt_of_le_of_lt hle (by decide)
  refine ⟨⟨false, fractions[offset.toNat], 12, hfit, by decide⟩, ?_, ?_⟩
  · rw [fraction?, List.getElem?_eq_getElem h, Option.bind_some, ofParts?,
      dif_pos ⟨hfit, by decide⟩]
    rfl
  · rw [fractionQuanta, Int.natCast_mul]
    rfl

/-- Outside the window there is none. -/
theorem fraction?_of_le (h : fractions.length ≤ offset.toNat) : fraction? offset = none := by
  rw [fraction?, List.getElem?_eq_none h]
  rfl

/-! ## The rate -/

/-- A scaled rate, rounded up and held between the least rate and the maximum. -/
def held (c : RateCurve) (maxRate scaled : Decimal) : Decimal :=
  ((scaled.roundUp c.rateDecimals.toNat).max (c.minRate.min maxRate)).min maxRate

theorem quanta_held (c : RateCurve) (maxRate scaled : Decimal) :
    (c.held maxRate scaled).quanta =
      min (max (scaled.roundUp c.rateDecimals.toNat).quanta (min c.minRate.quanta maxRate.quanta))
        maxRate.quanta := by
  rw [held, quanta_min, quanta_max, quanta_min]

/-- What is held keeps its order. -/
theorem held_le_held {scaled scaled' : Decimal} (h : scaled ≤ scaled') :
    c.held maxRate scaled ≤ c.held maxRate scaled' := by
  have hup := roundUp_le_roundUp c.rateDecimals.toNat h
  rw [le_def] at hup ⊢
  rw [quanta_held, quanta_held]
  omega

/-- Behind the window the rate is the maximum. -/
theorem rateAt_of_ended (hpos : .zero < maxRate) (h : fractions.length ≤ offset.toNat) :
    c.rateAt offset maxRate = .ok maxRate := by
  rw [rateAt, if_neg (Decimal.not_le.mpr hpos), fraction?_of_le h]
  rfl

/-- **Inside the window** the maximum is scaled, which rounds a product between zero and
the maximum. -/
theorem exists_times (hpos : .zero < maxRate) (h : offset.toNat < fractions.length) :
    ∃ f scaled, fraction? offset = some f ∧ maxRate.times f = .ok scaled ∧
      nearest? (maxRate.quanta * fractionQuanta offset h) = some scaled.quanta ∧
      .zero ≤ scaled := by
  have hmax : 0 < maxRate.quanta := hpos
  obtain ⟨f, hf, hfq⟩ := exists_fraction? h
  have hexact : maxRate.quanta * fractionQuanta offset h ≤ maxRate.quanta * tens 28 :=
    Int.mul_le_mul_of_nonneg_left (Int.ofNat_le.mpr (fractionQuanta_le h)) (Int.le_of_lt hmax)
  obtain ⟨q, hq, hq0, -⟩ := nearest?_of_le (Int.mul_nonneg (Int.le_of_lt hmax)
    (Int.natCast_nonneg _)) hexact
  obtain ⟨scaled, hscaled, rfl⟩ := exists_mul? (a := maxRate) (b := f) (by rw [hfq]; exact hq)
  exact ⟨f, scaled, hf, times_eq_ok.mpr hscaled, hq, hq0⟩

/-- The scaled maximum is held. -/
theorem rateAt_of_times {f scaled : Decimal} (hpos : .zero < maxRate)
    (hf : fraction? offset = some f) (hscaled : maxRate.times f = .ok scaled) :
    c.rateAt offset maxRate = .ok (c.held maxRate scaled) := by
  rw [rateAt, if_neg (Decimal.not_le.mpr hpos), hf]
  dsimp only
  rw [hscaled]
  rfl

/-- Inside the window the rate is the scaled maximum, held. -/
theorem exists_rateAt_of_lt (c : RateCurve) (hpos : .zero < maxRate)
    (h : offset.toNat < fractions.length) :
    ∃ scaled, nearest? (maxRate.quanta * fractionQuanta offset h) = some scaled.quanta ∧
      .zero ≤ scaled ∧ c.rateAt offset maxRate = .ok (c.held maxRate scaled) := by
  obtain ⟨f, scaled, hf, hscaled, hq, hnonneg⟩ := exists_times hpos h
  exact ⟨scaled, hq, hnonneg, rateAt_of_times hpos hf hscaled⟩

/-- **There is a rate** for every curve, offset and maximum. -/
theorem exists_rateAt (c : RateCurve) (offset : UInt64) (maxRate : Decimal) :
    ∃ r, c.rateAt offset maxRate = .ok r := by
  by_cases hpos : .zero < maxRate
  · by_cases h : offset.toNat < fractions.length
    · obtain ⟨scaled, -, -, hr⟩ := exists_rateAt_of_lt c hpos h
      exact ⟨_, hr⟩
    · exact ⟨_, rateAt_of_ended hpos (by omega)⟩
  · exact ⟨_, rateAt_of_not_pos (Decimal.not_lt.mp hpos)⟩

/-- **What the rate is**: zero without a positive maximum, the maximum behind the window,
and inside it the scaled maximum, held between the bounds. -/
theorem rateAt_cases (hr : c.rateAt offset maxRate = .ok r) :
    (maxRate ≤ .zero ∧ r = .zero) ∨
      (.zero < maxRate ∧ fractions.length ≤ offset.toNat ∧ r = maxRate) ∨
      (.zero < maxRate ∧ ∃ (h : offset.toNat < fractions.length) (scaled : Decimal),
        nearest? (maxRate.quanta * fractionQuanta offset h) = some scaled.quanta ∧
          .zero ≤ scaled ∧ r = c.held maxRate scaled) := by
  by_cases hpos : .zero < maxRate
  · by_cases h : offset.toNat < fractions.length
    · obtain ⟨scaled, hq, hnonneg, hheld⟩ := exists_rateAt_of_lt c hpos h
      exact Or.inr (Or.inr ⟨hpos, h, scaled, hq, hnonneg, Except.ok.inj (hr.symm.trans hheld)⟩)
    · have hended : fractions.length ≤ offset.toNat := by omega
      exact Or.inr (Or.inl ⟨hpos, hended,
        Except.ok.inj (hr.symm.trans (rateAt_of_ended hpos hended))⟩)
  · have hzero := Decimal.not_lt.mp hpos
    exact Or.inl ⟨hzero, Except.ok.inj (hr.symm.trans (rateAt_of_not_pos hzero))⟩

/-! ## The bounds of the rate -/

/-- No rate is negative. -/
theorem rateAt_nonneg (hr : c.rateAt offset maxRate = .ok r) : .zero ≤ r := by
  obtain ⟨-, rfl⟩ | ⟨hpos, -, rfl⟩ | ⟨hpos, -, scaled, -, hnonneg, rfl⟩ := rateAt_cases hr
  · exact Decimal.le_refl _
  · exact Decimal.le_of_lt hpos
  · have hup := roundUp_le_roundUp c.rateDecimals.toNat hnonneg
    have hzero : (roundUp c.rateDecimals.toNat .zero).quanta = 0 := by
      rw [quanta_roundUp, quanta_zero, Int.neg_zero, Int.zero_ediv, Int.neg_zero, Int.zero_mul]
    rw [le_def, hzero] at hup
    rw [lt_def, quanta_zero] at hpos
    rw [le_def, quanta_zero, quanta_held]
    omega

/-- No rate exceeds a maximum that is not negative. -/
theorem rateAt_le (hmax : .zero ≤ maxRate) (hr : c.rateAt offset maxRate = .ok r) :
    r ≤ maxRate := by
  obtain ⟨-, rfl⟩ | ⟨-, -, rfl⟩ | ⟨-, -, scaled, -, -, rfl⟩ := rateAt_cases hr
  · exact hmax
  · exact Decimal.le_refl _
  · rw [le_def, quanta_held]
    omega

/-- **The rate never falls** as the offset grows. -/
theorem rateAt_le_rateAt (hr : c.rateAt offset maxRate = .ok r)
    (hr' : c.rateAt offset' maxRate = .ok r') (hle : offset ≤ offset') : r ≤ r' := by
  obtain ⟨hzero, rfl⟩ | ⟨hpos, -, rfl⟩ | ⟨hpos, h', scaled', hq', -, rfl⟩ := rateAt_cases hr'
  · rw [rateAt_of_not_pos hzero] at hr
    cases hr
    exact Decimal.le_refl _
  · exact rateAt_le (Decimal.le_of_lt hpos) hr
  · have h : offset.toNat < fractions.length :=
      Nat.lt_of_le_of_lt (UInt64.le_iff_toNat_le.mp hle) h'
    obtain ⟨scaled, hq, -, hheld⟩ := exists_rateAt_of_lt c hpos h
    rw [hheld] at hr
    cases hr
    have hfraction := Int.ofNat_le.mpr (fractionQuanta_mono h h' hle)
    exact held_le_held (nearest?_le_nearest? hq hq'
      (Int.mul_le_mul_of_nonneg_left hfraction (Int.le_of_lt hpos)))

/-- **No rate is below the least rate**, as far as a positive maximum allows that one. -/
theorem minRate_le_rateAt (hpos : .zero < maxRate) (hr : c.rateAt offset maxRate = .ok r) :
    c.minRate.min maxRate ≤ r := by
  rw [le_def, quanta_min]
  obtain ⟨hzero, -⟩ | ⟨-, -, rfl⟩ | ⟨-, -, scaled, -, -, rfl⟩ := rateAt_cases hr
  · exact absurd hpos (Decimal.not_lt.mpr hzero)
  · omega
  · rw [quanta_held]
    omega

/-- **Behind the window the rate is the maximum**, in value also where that is zero. -/
theorem same_of_ended (hmax : .zero ≤ maxRate) (h : fractions.length ≤ offset.toNat)
    (hr : c.rateAt offset maxRate = .ok r) : r.Same maxRate := by
  obtain ⟨hzero, rfl⟩ | ⟨-, -, rfl⟩ | ⟨-, hlt, -⟩ := rateAt_cases hr
  · exact same_of_le hmax hzero
  · rfl
  · omega

/-! ## The grid of the rate -/

/-- **Rates on a grid**: the rate is on the grid of the maximum and the least rate, if that
is no coarser than what scaled rates are rounded to. -/
theorem onGrid_rateAt {places : Nat} (hplaces : c.rateDecimals.toNat ≤ places)
    (hmin : c.minRate.OnGrid places) (hmax : maxRate.OnGrid places)
    (hr : c.rateAt offset maxRate = .ok r) : r.OnGrid places := by
  obtain ⟨-, rfl⟩ | ⟨-, -, rfl⟩ | ⟨-, -, scaled, -, -, rfl⟩ := rateAt_cases hr
  · exact onGrid_zero places
  · exact hmax
  · have hup := (onGrid_roundUp c.rateDecimals.toNat scaled).mono hplaces
    exact (hup.max (hmin.min hmax)).min hmax

/-! ## The climb -/

/-- **The rate climbs to the maximum.** Whatever places a curve rounds to, and whatever its least
rate, it has a rate at every offset for every maximum, and the rate never falls from an offset to
a later one. Without a positive maximum the rate is zero. With one it is between zero and the
maximum, it is no lower than the least rate as far as the maximum allows that one, and from the
end of the window on it is the maximum. -/
theorem rateAt_climbs (c : RateCurve) (maxRate : Decimal) :
    ∃ rate : UInt64 → Decimal, (∀ d, c.rateAt d maxRate = .ok (rate d)) ∧
      (∀ d d', d ≤ d' → rate d ≤ rate d') ∧
      (maxRate ≤ .zero → ∀ d, rate d = .zero) ∧
      (.zero < maxRate → ∀ d, .zero ≤ rate d ∧ rate d ≤ maxRate ∧
        c.minRate.min maxRate ≤ rate d ∧ (windowBlocks ≤ d → rate d = maxRate)) := by
  choose rate hrate using fun d => exists_rateAt c d maxRate
  refine ⟨rate, hrate, fun d d' hle => rateAt_le_rateAt (hrate d) (hrate d') hle,
    fun hzero d => ?_, fun hpos d => ?_⟩
  · exact Except.ok.inj ((hrate d).symm.trans (rateAt_of_not_pos hzero))
  · refine ⟨rateAt_nonneg (hrate d), rateAt_le (Decimal.le_of_lt hpos) (hrate d),
      minRate_le_rateAt hpos (hrate d), fun hended => ?_⟩
    have hlength : fractions.length ≤ d.toNat := UInt64.le_iff_toNat_le.mp hended
    exact Except.ok.inj ((hrate d).symm.trans (rateAt_of_ended hpos hlength))

/-- In whole percents and with a least rate below zero, half a percent at most: what is scaled is
rounded up to one percent, and the maximum holds it down. -/
example : (RateCurve.mk 0 (-.one)).rateAt 1 (.percent 50) = .ok (.percent 50) := by decide +kernel

end RateCurve

end StakeAccounting

import StakeAccounting.Proofs.Decimal.Units
import StakeAccounting.Proofs.Peg.Response

/-!
# Signals below zero

Debt and demand are not negative, but figures may be. The evaluation counts a ratio below zero as
zero, which is in the lowest band wherever the bounds are positive and in order. But before that the
ratio is formed, and one that is out of range counts as the greatest decimal, on whichever side of
the range it is. So a ratio far below zero does not end up in the lowest band, it ends up in the
highest (`Peg.highest_bands`).

That is the only way out of the lowest band. A quotient in range keeps its sign
(`Decimal.div?_nonpos`), and where there is no supply the ratio of negative debt is zero by rule.
`Peg.lowest_bands_iff` says exactly which figures are meant: those whose exact ratio is as near to
`-2^96` as to the least decimal, or nearer (`Signal.BelowRange`).
-/

namespace StakeAccounting

open Decimal

/-! ## The bands of zero and of the greatest decimal -/

section Bands

variable {bounds : PegBounds} {r : Decimal}

/-- Nothing is low debt, if the bounds are positive and in order. -/
theorem DebtBand.ofRatio_of_nonpos (hlower : .zero < bounds.debtRatioLower)
    (horder : bounds.debtRatioLower ≤ bounds.debtRatioUpper) (hr : r ≤ .zero) :
    DebtBand.ofRatio r bounds = .low := by
  have hlow : r < bounds.debtRatioLower := Int.lt_of_le_of_lt hr hlower
  rw [DebtBand.ofRatio, if_neg (Decimal.not_le.mpr (Int.lt_of_lt_of_le hlow horder)),
    if_neg (Decimal.not_le.mpr hlow)]

/-- The greatest decimal is high debt, whatever the bounds. -/
theorem DebtBand.ofRatio_greatest (bounds : PegBounds) : ofRatio greatest bounds = .high :=
  if_pos (quanta_le_greatest _)

/-- Nothing is decreasing demand, if the bounds are positive and in order. -/
theorem DemandBand.ofDelta_of_nonpos (hlower : .zero < bounds.demandLower)
    (horder : bounds.demandLower ≤ bounds.demandUpper) (hr : r ≤ .zero) :
    DemandBand.ofDelta r bounds = .decreasing := by
  have hlow : r < bounds.demandLower := Int.lt_of_le_of_lt hr hlower
  rw [DemandBand.ofDelta, if_neg (Decimal.not_le.mpr (Int.lt_of_lt_of_le hlow horder)),
    if_neg (Decimal.not_le.mpr hlow)]

/-- The greatest decimal is increasing demand, whatever the bounds. -/
theorem DemandBand.ofDelta_greatest (bounds : PegBounds) : ofDelta greatest bounds = .increasing :=
  if_pos (quanta_le_greatest _)

end Bands

/-- What is not positive counts as nothing. -/
theorem Peg.clamped_nonpos {a : Decimal} (h : a ≤ .zero) : clamped a ≤ .zero := by
  rw [le_def, quanta_zero] at h ⊢
  rw [quanta_clamped]
  omega

/-! ## The ratio of something negative -/

namespace Signal

variable {idle part whole : Decimal}

/-- **A ratio below the range**: there is something to divide by, and the exact quotient is no
nearer to the least decimal than to `-2^96`. -/
def BelowRange (part whole : Decimal) : Prop :=
  .zero < whole ∧ part.value / whole.value ≤ -(2 ^ 96 - 1 / 2)

instance (part whole : Decimal) : Decidable (BelowRange part whole) :=
  inferInstanceAs (Decidable (_ ∧ _))

/-- **There is a quotient** of something that is not positive, unless it is below the range. -/
theorem div?_eq_none_iff_belowRange (hpart : part ≤ .zero) (hwhole : .zero < whole) :
    part.div? whole = none ↔ BelowRange part whole := by
  obtain ⟨n, hn⟩ := Int.eq_ofNat_of_zero_le (Int.neg_nonneg.mpr (show part.quanta ≤ 0 from hpart))
  obtain ⟨d, hd⟩ := Int.eq_ofNat_of_zero_le (Int.le_of_lt (show 0 < whole.quanta from hwhole))
  have hpos : 0 < whole.quanta := hwhole
  have hd0 : (0 : Rat) < d := by exact_mod_cast (show 0 < d by omega)
  have ht : (((tens 28 : Nat) : Int) : Rat) ≠ 0 := by
    exact_mod_cast Nat.ne_of_gt (tens_pos 28)
  have hratio : part.value / whole.value = -(n : Rat) / d := by
    rw [value_eq, value_eq, div_div_div_cancel_right₀ ht, show part.quanta = -(n : Int) by omega,
      hd]
    push_cast
    rfl
  have hbound : (2 * (mantissaBound - 1) + 1 : Nat) = 2 ^ 97 - 1 := by decide
  rw [div?_eq_none_iff hwhole, BelowRange, and_iff_right hwhole, hratio, div_le_iff₀ hd0,
    show part.quanta.natAbs = n by omega, show whole.quanta.natAbs = d by omega, hbound,
    ← Nat.cast_le (α := Rat)]
  push_cast
  constructor <;> intro h <;> linarith

/-- **The ratio of something that is not positive**, as it counts: below the range the greatest
decimal, and elsewhere nothing. -/
theorem clamped_ratioOr (hidle : whole ≤ .zero → idle ≤ .zero) (hpart : part ≤ .zero) :
    (BelowRange part whole ∧ Peg.clamped (ratioOr idle part whole) = greatest) ∨
      (¬BelowRange part whole ∧ Peg.clamped (ratioOr idle part whole) ≤ .zero) := by
  by_cases hwhole : .zero < whole
  · have hnone := div?_eq_none_iff_belowRange hpart hwhole
    rw [ratioOr, if_neg (Decimal.not_le.mpr hwhole)]
    cases hdiv : part.div? whole with
    | none => exact Or.inl ⟨hnone.mp hdiv, rfl⟩
    | some c =>
      refine Or.inr ⟨fun hbelow => ?_, Peg.clamped_nonpos (div?_nonpos hpart hwhole hdiv)⟩
      rw [hnone.mpr hbelow] at hdiv
      cases hdiv
  · have hnothing := Decimal.not_lt.mp hwhole
    rw [ratioOr_of_not_pos hnothing, if_neg (Decimal.not_lt.mpr hpart)]
    exact Or.inr ⟨fun hbelow => hwhole hbelow.1, Peg.clamped_nonpos (hidle hnothing)⟩

end Signal

namespace Peg

/-- **Figures below zero are in the lowest bands, or in the highest.** Let the bounds be positive
and in order. Without positive debt, debt is low, and without positive demand after some, demand is
decreasing; but where the ratio is below the range, debt is high and demand is increasing. The
supply and the price may be any. -/
theorem lowest_bands_iff {bounds : PegBounds} {debt thisEpoch lastEpoch : Decimal}
    (hdebtLower : .zero < bounds.debtRatioLower)
    (hdebtOrder : bounds.debtRatioLower ≤ bounds.debtRatioUpper)
    (hdemandLower : .zero < bounds.demandLower)
    (hdemandOrder : bounds.demandLower ≤ bounds.demandUpper)
    (hdebt : debt ≤ .zero) (hthis : thisEpoch ≤ .zero) (hlast : .zero < lastEpoch)
    (supply deviation : Decimal) :
    let state := (evaluate (Signal.debtRatio debt supply) deviation
      (Signal.demandDelta thisEpoch lastEpoch) bounds).state
    state.debt = (if Signal.BelowRange debt supply then .high else .low) ∧
      state.demand =
        (if Signal.BelowRange thisEpoch lastEpoch then .increasing else .decreasing) := by
  intro state
  constructor
  · show DebtBand.ofRatio (clamped (Signal.ratioOr .zero debt supply)) bounds = _
    rcases Signal.clamped_ratioOr (fun _ => Decimal.le_refl _) hdebt with
      ⟨hbelow, hratio⟩ | ⟨hin, hratio⟩
    · rw [if_pos hbelow, hratio]
      exact DebtBand.ofRatio_greatest bounds
    · rw [if_neg hin]
      exact DebtBand.ofRatio_of_nonpos hdebtLower hdebtOrder hratio
  · show DemandBand.ofDelta (clamped (Signal.ratioOr .one thisEpoch lastEpoch)) bounds = _
    rcases Signal.clamped_ratioOr (fun hnone => absurd hlast (Decimal.not_lt.mpr hnone)) hthis with
      ⟨hbelow, hratio⟩ | ⟨hin, hratio⟩
    · rw [if_pos hbelow, hratio]
      exact DemandBand.ofDelta_greatest bounds
    · rw [if_neg hin]
      exact DemandBand.ofDelta_of_nonpos hdemandLower hdemandOrder hratio

/-- **Far below zero is the highest band.** The debt is the least decimal and the supply one half,
and demand has fallen likewise. The bounds are those of the protocol; the ratios are near `-2^97`,
and count as the greatest decimal. -/
theorem highest_bands :
    Decimal.zero < PegBounds.standard.debtRatioLower ∧
      PegBounds.standard.debtRatioLower ≤ PegBounds.standard.debtRatioUpper ∧
      Decimal.zero < PegBounds.standard.demandLower ∧
      PegBounds.standard.demandLower ≤ PegBounds.standard.demandUpper ∧
      -greatest ≤ .zero ∧ Decimal.zero < .percent 50 ∧
      (evaluate (Signal.debtRatio (-greatest) (.percent 50)) (Signal.priceDeviation .one)
        (Signal.demandDelta (-greatest) (.percent 50)) .standard).state =
          ⟨.high, .below, .increasing⟩ := by
  decide +kernel

/-- With the least decimal of debt against a supply of one half, debt is high. With demand of minus
one after demand of one, demand is decreasing. -/
theorem lowest_bands_iff_half :
    -greatest ≤ .zero ∧ -Decimal.one ≤ .zero ∧ Decimal.zero < .one ∧
      Signal.BelowRange (-greatest) (.percent 50) ∧ ¬Signal.BelowRange (-.one) .one ∧
      (evaluate (Signal.debtRatio (-greatest) (.percent 50)) .zero
        (Signal.demandDelta (-.one) .one) .standard).state.debt = .high ∧
      (evaluate (Signal.debtRatio (-greatest) (.percent 50)) .zero
        (Signal.demandDelta (-.one) .one) .standard).state.demand = .decreasing := by
  have hbelow : Signal.BelowRange (-greatest) (.percent 50) := by decide +kernel
  have hin : ¬Signal.BelowRange (-.one) .one := by decide +kernel
  obtain ⟨hdebt, hdemand⟩ := @lowest_bands_iff .standard (-greatest) (-.one) .one (by decide)
    (by decide) (by decide) (by decide) (by decide) (by decide) (by decide) (.percent 50) .zero
  exact ⟨by decide, by decide, by decide, hbelow, hin, hdebt.trans (if_pos hbelow),
    hdemand.trans (if_neg hin)⟩

end Peg

end StakeAccounting

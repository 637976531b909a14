import Mathlib.Tactic.SplitIfs
import StakeAccounting.Lot
import StakeAccounting.Peg.Evaluation
import StakeAccounting.Peg.Signal
import StakeAccounting.Proofs.Decimal.Quotient
import StakeAccounting.Proofs.Decimal.Saturation

/-!
# The response of the policy is monotone

More debt, less supply, a lower price, less demand now or more of it before: each of
these calls for a maximum rate that is higher or the same, and never for a lower one
(`Peg.respond_le_respond`).

The way from the figures to the rate has many places where that might go wrong. A
ratio is rounded, or counts as the greatest decimal, be it for want of a divisor or
because it is out of range, and where neither side is positive a rule takes its place;
`Signal.ratioOr_le_ratioOr` goes through all crossings between these. The debt ratio
decides about two bands at once, its own and the side of the peg, which move in
opposite directions; the table of magnitudes agrees with both (`magnitude_le_magnitude`).
And the change of the rate is cut off below, so it is compared across that cut
(`applyRateChange_le_applyRateChange`).
-/

namespace StakeAccounting

open Decimal

/-! ## The signals keep the order -/

namespace Signal

/-- A ratio to something positive is rounded, or the greatest decimal. -/
theorem quanta_ratioOr {idle part whole : Decimal} (hpart : 0 ≤ part.quanta)
    (hwhole : .zero < whole) : (ratioOr idle part whole).quanta =
      saturatedRatio (part.quanta.toNat * tens 28) whole.quanta.toNat := by
  have hpos : 0 < whole.quanta := hwhole
  have hmap := map_quanta_div?_of_nonneg hpart hwhole
  rw [ratioOr, if_neg (Decimal.not_le.mpr hwhole), ← Option.getD_map quanta, hmap]
  unfold saturatedRatio
  cases nearestRatio? (part.quanta.toNat * tens 28) whole.quanta.toNat with
  | none => exact quanta_greatest
  | some q => rfl

/-- A ratio to nothing follows the rule. -/
theorem ratioOr_of_not_pos {idle part whole : Decimal} (hwhole : whole ≤ .zero) :
    ratioOr idle part whole = if .zero < part then saturated else idle := if_pos hwhole

/-- **Ratios keep the order**: a greater part of a smaller whole is no smaller ratio, also
where one of the two is settled by the rule or out of range. -/
theorem ratioOr_le_ratioOr {idle part part' whole whole' : Decimal} (hidle : .zero ≤ idle)
    (hpart : .zero ≤ part) (hp : part ≤ part') (hwhole : .zero ≤ whole') (hw : whole' ≤ whole) :
    ratioOr idle part whole ≤ ratioOr idle part' whole' := by
  rw [le_def, quanta_zero] at hidle hpart hwhole
  rw [le_def] at hp hw ⊢
  have hgreatest : saturated.quanta = greatestQuanta := quanta_greatest
  have hidlele := quanta_le_greatest idle
  by_cases hzero : whole'.quanta = 0
  · rw [ratioOr_of_not_pos (show whole' ≤ .zero by rw [le_def, quanta_zero]; omega)]
    by_cases hsome : .zero < part'
    · rw [if_pos hsome, hgreatest]
      exact quanta_le_greatest _
    · rw [lt_def, quanta_zero] at hsome
      rw [if_neg (by rw [lt_def, quanta_zero]; exact hsome)]
      by_cases hnone : whole.quanta = 0
      · rw [ratioOr_of_not_pos (by rw [le_def, quanta_zero]; omega),
          if_neg (by rw [lt_def, quanta_zero]; omega)]
      · -- nothing of something is zero, which is no more than the rule's answer
        rw [quanta_ratioOr hpart (by rw [lt_def, quanta_zero]; omega),
          show part.quanta.toNat = 0 by omega, Nat.zero_mul,
          saturatedRatio_of_some (nearestRatio?_zero (by omega))]
        omega
  · rw [quanta_ratioOr hpart (by rw [lt_def, quanta_zero]; omega),
      quanta_ratioOr (by omega) (by rw [lt_def, quanta_zero]; omega)]
    refine Int.ofNat_le.mpr (saturatedRatio_le_saturatedRatio (by omega) (by omega) ?_)
    exact Nat.mul_le_mul (Nat.mul_le_mul_right _ (by omega)) (by omega)

/-- A greater price deviates by no less. -/
theorem priceDeviation_le_priceDeviation {price price' : Decimal} (h : price ≤ price') :
    priceDeviation price ≤ priceDeviation price' := by
  rw [le_def] at h
  rw [le_def, priceDeviation, priceDeviation, quanta_subSaturating, quanta_subSaturating]
  exact saturated_le_saturated (Int.mul_le_mul_of_nonneg_right (by omega) (Int.natCast_nonneg _))

end Signal

/-! ## The bands keep the order -/

theorem DebtBand.offset_le_offset {r r' : Decimal} (bounds : PegBounds) (h : r ≤ r') :
    (ofRatio r bounds).offset ≤ (ofRatio r' bounds).offset := by
  unfold ofRatio
  simp only [le_def] at h ⊢
  split_ifs <;> simp only [offset] <;> omega

theorem DemandBand.offset_le_offset {r r' : Decimal} (bounds : PegBounds) (h : r ≤ r') :
    (ofDelta r bounds).offset ≤ (ofDelta r' bounds).offset := by
  unfold ofDelta
  simp only [le_def] at h ⊢
  split_ifs <;> simp only [offset] <;> omega

/-- A greater deviation and a smaller debt ratio are on the upper side of the peg if the
others are. -/
theorem PriceSign.offset_le_offset {x x' r r' : Decimal} (bounds : PegBounds) (hx : x ≤ x')
    (hr : r' ≤ r) : (ofDeviation x r bounds).offset ≤ (ofDeviation x' r' bounds).offset := by
  unfold ofDeviation
  simp only [le_def, lt_def, isZero_iff, quanta_zero] at hx hr ⊢
  split_ifs <;> simp only [offset] <;> omega

/-! ## The magnitude keeps the order -/

namespace CaseState

theorem magnitude_le_of_debt {d d' : DebtBand} (h : d.offset ≤ d'.offset) (p : PriceSign)
    (m : DemandBand) : (CaseState.mk d p m).caseId.magnitude ≤
      (CaseState.mk d' p m).caseId.magnitude := by
  cases d <;> cases d' <;> cases p <;> cases m <;> revert h <;> decide

theorem magnitude_le_of_price (d : DebtBand) {p p' : PriceSign} (h : p'.offset ≤ p.offset)
    (m : DemandBand) : (CaseState.mk d p m).caseId.magnitude ≤
      (CaseState.mk d p' m).caseId.magnitude := by
  cases p <;> cases p' <;> cases d <;> cases m <;> revert h <;> decide

theorem magnitude_le_of_demand (d : DebtBand) (p : PriceSign) {m m' : DemandBand}
    (h : m'.offset ≤ m.offset) : (CaseState.mk d p m).caseId.magnitude ≤
      (CaseState.mk d p m').caseId.magnitude := by
  cases m <;> cases m' <;> cases d <;> cases p <;> revert h <;> decide

/-- **The magnitude keeps the order** of the bands: it is no smaller in a higher band of
debt, below the peg, and in a lower band of demand. -/
theorem magnitude_le_magnitude {s t : CaseState} (hdebt : s.debt.offset ≤ t.debt.offset)
    (hprice : t.price.offset ≤ s.price.offset) (hdemand : t.demand.offset ≤ s.demand.offset) :
    s.caseId.magnitude ≤ t.caseId.magnitude :=
  calc s.caseId.magnitude
      ≤ (CaseState.mk t.debt s.price s.demand).caseId.magnitude :=
        magnitude_le_of_debt hdebt s.price s.demand
    _ ≤ (CaseState.mk t.debt t.price s.demand).caseId.magnitude :=
        magnitude_le_of_price t.debt hprice s.demand
    _ ≤ t.caseId.magnitude := magnitude_le_of_demand t.debt t.price hdemand

end CaseState

namespace Peg

/-! ## The rate keeps the order -/

theorem quanta_ofMagnitude (m : Int8) : (ofMagnitude m).quanta = m.toInt * tens 28 := by
  have hlow := m.le_toInt
  have hhigh := m.toInt_lt
  have hfits : m.toInt.natAbs < mantissaBound :=
    Nat.lt_of_lt_of_le (m := 129) (by omega) (by decide)
  rw [ofMagnitude, ofInt?, ofParts?, dif_pos ⟨hfits, Nat.zero_le 28⟩, Option.getD_some, quanta,
    coefficient]
  dsimp only
  congr 1
  by_cases hneg : m.toInt < 0
  · rw [if_pos (by simpa using hneg)]
    omega
  · rw [if_neg (by simpa using hneg)]
    omega

/-- The rate moved by a magnitude before it is cut off. -/
theorem quanta_moved (maxRate : Decimal) (m : Int8) :
    (maxRate.addSaturating (ofMagnitude m)).quanta =
      saturated ((maxRate.quanta + m.toInt * tens 28) * tens 28) := by
  rw [quanta_addSaturating, quanta_ofMagnitude]

theorem moved_le_moved (maxRate : Decimal) {i j : Int} (h : i ≤ j) :
    saturated ((maxRate.quanta + i * tens 28) * tens 28) ≤
      saturated ((maxRate.quanta + j * tens 28) * tens 28) := by
  have ht : (0 : Int) ≤ tens 28 := Int.natCast_nonneg _
  have hij := Int.mul_le_mul_of_nonneg_right h ht
  exact saturated_le_saturated (Int.mul_le_mul_of_nonneg_right (by omega) ht)

/-- **A greater magnitude never leads to a smaller rate**, also where the smaller one is
cut off. -/
theorem applyRateChange_le_applyRateChange (maxRate : Decimal) {m m' : Int8} (h : m ≤ m') :
    applyRateChange maxRate m ≤ applyRateChange maxRate m' := by
  rw [Int8.le_iff_toInt_le] at h
  have hmoved := moved_le_moved maxRate h
  rw [← quanta_moved, ← quanta_moved] at hmoved
  unfold applyRateChange
  simp only [le_def, lt_def, Int8.lt_iff_toInt_lt, Int8.toInt_zero]
  by_cases hcut : m.toInt < 0 ∧ (maxRate.addSaturating (ofMagnitude m)).quanta < one.quanta
  · rw [if_pos hcut, quanta_min]
    by_cases hcut' : m'.toInt < 0 ∧ (maxRate.addSaturating (ofMagnitude m')).quanta < one.quanta
    · rw [if_pos hcut', quanta_min]
    · rw [if_neg hcut']
      by_cases hsign : m'.toInt < 0
      · omega
      · -- an increase leads to no less than the rate itself
        have hself := moved_le_moved maxRate (show (0 : Int) ≤ m'.toInt by omega)
        rw [Int.zero_mul, Int.add_zero, saturated_of_nearest? (nearest?_quanta maxRate),
          ← quanta_moved] at hself
        omega
  · rw [if_neg hcut, if_neg (by omega)]
    exact hmoved

/-! ## The response -/

/-- **The response to the figures of an epoch**: the outcome for the signals they make. -/
def respond (bounds : PegBounds) (debt supply price thisEpoch lastEpoch : Decimal) : CaseOutcome :=
  evaluate (Signal.debtRatio debt supply) (Signal.priceDeviation price)
    (Signal.demandDelta thisEpoch lastEpoch) bounds

theorem quanta_clamped (a : Decimal) : (clamped a).quanta = max a.quanta 0 := by
  have hneg := isBelowZero_iff a
  rw [lt_def, quanta_zero] at hneg
  unfold clamped
  by_cases hbelow : a.quanta < 0
  · rw [if_pos (hneg.mpr hbelow), quanta_zero]
    omega
  · rw [if_neg fun h => hbelow (hneg.mp h)]
    omega

theorem clamped_le_clamped {a b : Decimal} (h : a ≤ b) : clamped a ≤ clamped b := by
  rw [le_def] at h ⊢
  rw [quanta_clamped, quanta_clamped]
  omega

/-- **The response is monotone.** With more debt, less supply, a lower price, less demand
now or more demand before, be it one of these or several, the magnitude is no smaller, and
neither is the maximum rate that follows from any rate. The bounds may be any, in order
or not. -/
theorem respond_le_respond (bounds : PegBounds)
    {debt debt' supply supply' price price' thisEpoch thisEpoch' lastEpoch lastEpoch' : Decimal}
    (hdebt : .zero ≤ debt) (hmore : debt ≤ debt') (hsupply : .zero ≤ supply')
    (hless : supply' ≤ supply) (hprice : price' ≤ price) (hthis : .zero ≤ thisEpoch')
    (hweaker : thisEpoch' ≤ thisEpoch) (hlast : .zero ≤ lastEpoch)
    (hstronger : lastEpoch ≤ lastEpoch') :
    (respond bounds debt supply price thisEpoch lastEpoch).magnitude ≤
        (respond bounds debt' supply' price' thisEpoch' lastEpoch').magnitude ∧
      ∀ maxRate,
        (respond bounds debt supply price thisEpoch lastEpoch).nextMaxRate maxRate ≤
          (respond bounds debt' supply' price' thisEpoch' lastEpoch').nextMaxRate maxRate := by
  have hratio : clamped (Signal.debtRatio debt supply) ≤ clamped (Signal.debtRatio debt' supply') :=
    clamped_le_clamped (Signal.ratioOr_le_ratioOr (Decimal.le_refl _) hdebt hmore hsupply hless)
  have hdemand : clamped (Signal.demandDelta thisEpoch' lastEpoch') ≤
      clamped (Signal.demandDelta thisEpoch lastEpoch) :=
    clamped_le_clamped (Signal.ratioOr_le_ratioOr (by decide) hthis hweaker hlast hstronger)
  have hmagnitude : (respond bounds debt supply price thisEpoch lastEpoch).magnitude ≤
      (respond bounds debt' supply' price' thisEpoch' lastEpoch').magnitude :=
    CaseState.magnitude_le_magnitude (DebtBand.offset_le_offset bounds hratio)
      (PriceSign.offset_le_offset bounds (Signal.priceDeviation_le_priceDeviation hprice) hratio)
      (DemandBand.offset_le_offset bounds hdemand)
  exact ⟨hmagnitude, fun maxRate => applyRateChange_le_applyRateChange maxRate hmagnitude⟩

/-- The price is on the peg, and there was no demand. As debt rises by one the ratio passes
from optimal to more, so the price counts as below; as the supply vanishes, too, the ratio
is the greatest decimal. The decrease that was called for becomes an increase, and the
greatest of all rates stays where it is. -/
theorem respond_le_respond_onPeg :
    let calm := respond .standard (.ofUInt32 15) (.ofUInt32 100) .one .zero .zero
    let tense := respond .standard (.ofUInt32 16) .zero .one .zero .zero
    calm.state = ⟨.moderate, .atOrAbove, .steady⟩ ∧ tense.state = ⟨.high, .below, .steady⟩ ∧
      calm.magnitude ≤ tense.magnitude ∧
      calm.nextMaxRate .greatest ≤ tense.nextMaxRate .greatest ∧
      (tense.nextMaxRate .greatest).Same .greatest := by
  intro calm tense
  have hdebt : Decimal.ofUInt32 15 ≤ .ofUInt32 16 := by decide
  have hsupply : Decimal.zero ≤ .ofUInt32 100 := by decide
  have hprice : Decimal.one ≤ .one := by decide
  have hzero : Decimal.zero ≤ .zero := by decide
  have hle := respond_le_respond .standard (by decide) hdebt hzero hsupply hprice hzero hzero
    hzero hzero
  exact ⟨by decide +kernel, by decide +kernel, hle.1, hle.2 .greatest, by decide +kernel⟩

end Peg

end StakeAccounting

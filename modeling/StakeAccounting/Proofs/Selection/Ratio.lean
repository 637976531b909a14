import StakeAccounting.Proofs.Decimal.Units
import StakeAccounting.Proofs.Selection.Arrangement

/-!
# The order of ratios, exact and rounded

Converts draw on the lot with the highest base value per amount first, and on the newer of
two lots with the same. Said exactly, in fractions, that is `Lot.Outranks`. The lots are
arranged by the ratio as a decimal, though, which is rounded. Rounding keeps the order
(`Lot.ratio_le_ratio`), so of two lots with different decimal ratios the one with the higher
exact ratio comes first. But exact ratios that differ may round to one decimal. Then the
epoch decides, and it may decide for the lower ratio: two thirds is no decimal, and a newer
lot of that ratio is drawn before an older one whose ratio is the decimal nearest two thirds,
although that one is higher (`lower_ratio_first`).

`Selector.outranks_iff_of_select` says that there is no other way for the orders to differ.
-/

namespace StakeAccounting

namespace Lot

/-- **A lot outranks another**: its base value per amount is higher, compared exactly and
across, or it is the same, and the lot is newer. -/
def Outranks (a b : Lot) : Prop :=
  b.baseValue.value * a.rawAmount.value < a.baseValue.value * b.rawAmount.value ∨
    a.baseValue.value * b.rawAmount.value = b.baseValue.value * a.rawAmount.value ∧
      b.epoch < a.epoch

instance (a b : Lot) : Decidable (a.Outranks b) := inferInstanceAs (Decidable (_ ∨ _))

variable {a b : Lot} {ra rb : Decimal}

/-- Products of values are compared like those of the quanta. -/
theorem value_mul_le_iff {x y z w : Decimal} :
    x.value * y.value ≤ z.value * w.value ↔ x.quanta * y.quanta ≤ z.quanta * w.quanta := by
  have ht : (0 : Rat) < ((tens 28 : Int) : Rat) * ((tens 28 : Int) : Rat) := by
    have : (0 : Rat) < ((tens 28 : Int) : Rat) :=
      Int.cast_pos.mpr (Int.natCast_pos.mpr (tens_pos 28))
    exact mul_pos this this
  simp only [Decimal.value_eq, div_mul_div_comm]
  rw [div_le_div_iff_of_pos_right ht]
  exact_mod_cast Iff.rfl

/-- **Rounding keeps the order of ratios.** -/
theorem ratio_le_ratio (ha : a.Valid) (hb : b.Valid) (hra : a.ratio = .ok ra)
    (hrb : b.ratio = .ok rb)
    (h : a.baseValue.value * b.rawAmount.value ≤ b.baseValue.value * a.rawAmount.value) :
    ra ≤ rb :=
  Decimal.div?_le_div? ha.2.1 ha.1 hb.2.1 hb.1 (value_mul_le_iff.mp h)
    (Outcome.orRefuse_eq_ok.mp hra) (Outcome.orRefuse_eq_ok.mp hrb)

end Lot

namespace Selector

variable {s : Selector} {now : Epoch} {id : TokenId} {requested : Decimal} {ls : List Lot}
  {sel : Selection}

/-- **Converts visit lots by their rounded ratio.** Of two lots of which one is visited before
the other, it has the higher decimal ratio, or the same and the newer epoch. It outranks the
other, exactly, unless the exact ratio of the other is higher and both round to one decimal.
-/
theorem outranks_iff_of_select
    (h : s.select .highestRatioFirst id requested ls now = .ok sel) {a b : Lot} (ha : a ∈ ls)
    (hb : b ∈ ls) (hvisits : sel.VisitsBefore a b) :
    ∃ ra rb, a.ratio = .ok ra ∧ b.ratio = .ok rb ∧ (rb < ra ∨ rb.Same ra ∧ b.epoch < a.epoch) ∧
      (a.Outranks b ↔ ¬ (rb.Same ra ∧
        a.baseValue.value * b.rawAmount.value < b.baseValue.value * a.rawAmount.value)) := by
  obtain ⟨ra, rb, hra, hrb, hprecedes⟩ := precedes_of_select h ha hb hvisits
  obtain ⟨-, -, -, -, -, hls, -⟩ := select_eq_ok h
  refine ⟨ra, rb, hra, hrb, hprecedes, ?_⟩
  constructor
  · rintro (hhigher | ⟨hequal, -⟩) ⟨-, hlower⟩
    · exact lt_asymm hhigher hlower
    · exact absurd hequal (ne_of_lt hlower)
  · intro hnot
    have hle : b.baseValue.value * a.rawAmount.value ≤ a.baseValue.value * b.rawAmount.value := by
      by_contra hlower
      rw [not_le] at hlower
      -- a lower ratio is not rounded to more, so the decimals are the same
      have hround := Lot.ratio_le_ratio (hls.valid a ha) (hls.valid b hb) hra hrb (le_of_lt hlower)
      rw [Decimal.le_def] at hround
      rw [Decimal.lt_def, Decimal.same_def] at hprecedes
      rw [Decimal.same_def] at hnot
      exact hnot ⟨by omega, hlower⟩
    rcases lt_or_eq_of_le hle with hhigher | hequal
    · exact Or.inl hhigher
    · refine Or.inr ⟨hequal.symm, ?_⟩
      -- equal ratios are rounded alike, so the epoch has decided
      have hround := Lot.ratio_le_ratio (hls.valid a ha) (hls.valid b hb) hra hrb
        (le_of_eq hequal.symm)
      rw [Decimal.le_def] at hround
      rw [Decimal.lt_def, Decimal.same_def] at hprecedes
      exact (hprecedes.resolve_left (by omega)).2

/-- Three tokens of two base value, and one token of a base value of two thirds, as near as a
decimal comes, which is above. -/
def nearTwoThirds : Lot × Lot :=
  (⟨⟨2⟩, .ofUInt32 3, .ofUInt32 2, .ofUInt32 2, .ofUInt32 4⟩,
    ⟨⟨1⟩, .one, ((Decimal.ofUInt32 2).div? (.ofUInt32 3)).getD .zero, .one, .one⟩)

/-- The selection of one token from the two lots. -/
def nearTwoThirdsSelected : Outcome Selection :=
  (Selector.mk .standard standardAccrualRate).select .highestRatioFirst TokenTable.beanId .one
    [nearTwoThirds.1, nearTwoThirds.2] ⟨2⟩

/-- **The lower ratio is drawn on first**, as both ratios are rounded to one decimal and its
lot is newer. -/
theorem lower_ratio_first : ∃ sel, nearTwoThirdsSelected = .ok sel ∧
    sel.VisitsBefore nearTwoThirds.1 nearTwoThirds.2 ∧
    ¬ nearTwoThirds.1.Outranks nearTwoThirds.2 := by
  obtain ⟨sel, hsel⟩ : ∃ sel, nearTwoThirdsSelected = .ok sel :=
    Outcome.exists_ok_of_answer? (by decide +kernel)
  have hepochs : Selection.epochs <$> nearTwoThirdsSelected = .ok [⟨2⟩] := by decide +kernel
  rw [hsel] at hepochs
  refine ⟨sel, hsel, Or.inr ?_, by decide +kernel⟩
  rw [Except.ok.inj hepochs]
  decide

/-- One lot is worth one and a half per token, the other a half: one token is drawn from the
first, although it is older. -/
theorem outranks_iff_of_select_half :
    let high : Lot := ⟨⟨1⟩, .ofUInt32 2, .ofUInt32 3, .one, .one⟩
    let low : Lot := ⟨⟨2⟩, .ofUInt32 2, .one, .one, .one⟩
    ∃ sel, (Selector.mk .standard standardAccrualRate).select .highestRatioFirst
        TokenTable.beanId .one [low, high] ⟨2⟩ = .ok sel ∧
      sel.VisitsBefore high low ∧ high.Outranks low := by
  intro high low
  obtain ⟨sel, hsel⟩ : ∃ sel, (Selector.mk .standard standardAccrualRate).select
      .highestRatioFirst TokenTable.beanId .one [low, high] ⟨2⟩ = .ok sel :=
    Outcome.exists_ok_of_answer? (by decide +kernel)
  have hepochs : Selection.epochs <$> (Selector.mk .standard standardAccrualRate).select
      .highestRatioFirst TokenTable.beanId .one [low, high] ⟨2⟩ = .ok [⟨1⟩] := by decide +kernel
  rw [hsel] at hepochs
  have hvisits : sel.VisitsBefore high low := by
    refine Or.inr ?_
    rw [Except.ok.inj hepochs]
    decide
  obtain ⟨ra, rb, hra, hrb, -, hiff⟩ := outranks_iff_of_select hsel (a := high) (b := low)
    (by simp) (by simp) hvisits
  refine ⟨sel, hsel, hvisits, hiff.mpr fun ⟨hsame, _⟩ => ?_⟩
  -- one and a half is not a half
  have hratios : high.ratio = .ok ⟨false, 150, 2, by decide, by decide⟩ ∧
      low.ratio = .ok ⟨false, 50, 2, by decide, by decide⟩ := by decide +kernel
  rw [hratios.1] at hra
  rw [hratios.2] at hrb
  cases hra
  cases hrb
  exact absurd hsame (by decide)

end Selector

end StakeAccounting

import StakeAccounting.Proofs.Decimal.Error
import StakeAccounting.Proofs.Selection.Select

/-!
# A split is in proportion

A lot that gives up part of its amount gives up the same part of its base value and of its yield
rate. The part is formed as a decimal first, and this fraction is multiplied then, so two
roundings lie between the share that is taken and the exact one. The first of them is harmless for
a small lot and not for a great one: what the fraction is off by is multiplied by the share the lot
has. So the distance is bounded in proportion to that share, one unit of the 27th place for every
unit of it, and one more for the rounding of the product (`select_proportional`).

No such bound holds of the stake weight, which is granted anew for the base value of the part, and
none is needed for the whole amount, where nothing is rounded.
-/

namespace StakeAccounting

namespace Selector

variable {s : Selector} {t : Token} {order : SelectionOrder} {id : TokenId} {requested : Decimal}
  {ls : List Lot} {now : Epoch} {l : Lot} {sel : Selection} {d : LotDelta}

/-- **The share that goes with part of a lot's amount** is the same part of base value and yield
rate, up to two roundings. -/
theorem shareOf_proportional {consumed baseValue yieldRate stakeWeight : Decimal} (hl : l.Valid)
    (hpos : .zero < consumed) (hpart : consumed < l.rawAmount)
    (h : shareOf t l consumed = .ok (baseValue, yieldRate, stakeWeight)) :
    |baseValue.value - consumed.value * l.baseValue.value / l.rawAmount.value| ≤
        (1 + l.baseValue.value) / tens 27 ∧
      |yieldRate.value - consumed.value * l.yieldRate.value / l.rawAmount.value| ≤
        (1 + l.yieldRate.value) / tens 27 := by
  obtain ⟨hraw, hbase, -, hyield⟩ := hl
  obtain ⟨hsame, -⟩ | ⟨-, fraction, hfraction, hb, hy, -⟩ := shareOf_cases h
  · rw [Decimal.lt_def, hsame] at hpart
    exact absurd hpart (Int.lt_irrefl _)
  · obtain ⟨f, hf, hf0, hf1⟩ := Decimal.exists_div?_of_lt hpos hpart
    rw [hfraction] at hf
    cases hf
    have hp : consumed.value / l.rawAmount.value ≤ 1 := by
      have hle := Decimal.le_iff_value_le.mp (Decimal.le_of_lt hpart)
      exact div_le_one_of_le₀ hle (Decimal.value_nonneg.mpr (Decimal.le_of_lt hraw))
    have happrox := Decimal.approximates_div? (Decimal.le_of_lt hpos) hraw hfraction
    rw [mul_div_right_comm, mul_div_right_comm]
    exact ⟨Decimal.abs_value_sub_le_of_fraction hp happrox hf1 hbase
        (Decimal.approximates_mul? hf0 hbase hb),
      Decimal.abs_value_sub_le_of_fraction hp happrox hf1 hyield
        (Decimal.approximates_mul? hf0 hyield hy)⟩

/-- **A partial split is in proportion.** Where a selection takes some of a lot's amount and not
all of it, the base value that goes with it is off the exact part of the lot's base value `b` by no
more than `(1 + b) / 10^27`; and so is the yield rate. -/
theorem select_proportional (h : s.select order id requested ls now = .ok sel)
    (hd : d ∈ sel.deltas) (hl : l ∈ ls) (he : d.epoch = l.epoch) (hpart : -d.amount < l.rawAmount) :
    |(-d.baseValue).value - (-d.amount).value * l.baseValue.value / l.rawAmount.value| ≤
        (1 + l.baseValue.value) / tens 27 ∧
      |(-d.yieldRate).value - (-d.amount).value * l.yieldRate.value / l.rawAmount.value| ≤
        (1 + l.yieldRate.value) / tens 27 := by
  obtain ⟨hvalid, t, consumed, hpos, -, hsplit⟩ := takes_of_select h hd hl he
  obtain ⟨baseValue, yieldRate, base, grown, accrued, stakeWeight, hshare, -, -, -, rfl⟩ :=
    split_eq_ok hsplit
  simp only [Decimal.neg_neg] at hpart ⊢
  exact shareOf_proportional hvalid hpos hpart hshare

/-- One of three tokens is taken, which are worth two. A third is no decimal, so what is taken of
the worth is not two thirds, and it is no more than three units of the 27th place off. -/
theorem select_proportional_third :
    let l : Lot := ⟨⟨1⟩, .ofUInt32 3, .ofUInt32 2, .one, .one⟩
    ∃ sel d, (Selector.mk .standard standardAccrualRate).select .newestFirst TokenTable.beanId .one
        [l] ⟨2⟩ = .ok sel ∧ d ∈ sel.deltas ∧ d.epoch = l.epoch ∧ -d.amount < l.rawAmount ∧
      (-d.baseValue).value ≠ 2 / 3 ∧ |(-d.baseValue).value - 2 / 3| ≤ 3 / tens 27 := by
  intro l
  obtain ⟨sel, hsel, hdeltas⟩ := Outcome.map_eq_ok.mp
    (show (fun sel => sel.deltas.map fun d => (d.epoch, -d.amount, -d.baseValue)) <$>
      (Selector.mk .standard standardAccrualRate).select .newestFirst TokenTable.beanId .one [l]
        ⟨2⟩ =
      .ok [(⟨1⟩, .one, ⟨false, 6666666666666666666666666666, 28, by decide, by decide⟩)] by
        decide +kernel)
  obtain ⟨d, hd, hparts⟩ := List.map_eq_singleton_iff.mp hdeltas
  obtain ⟨hepoch, hparts⟩ := Prod.mk.inj hparts
  obtain ⟨hamount, hbase⟩ := Prod.mk.inj hparts
  have hmem : d ∈ sel.deltas := by rw [hd]; exact List.mem_singleton_self d
  have hpart : -d.amount < l.rawAmount := by rw [hamount]; decide
  have hnear := (select_proportional hsel hmem (List.mem_singleton_self l) hepoch hpart).1
  have hraw : l.rawAmount.value = 3 := by decide +kernel
  have hworth : l.baseValue.value = 2 := by decide +kernel
  rw [hamount, hraw, hworth, Decimal.value_one, one_mul, show (1 + 2 : Rat) = 3 by norm_num]
    at hnear
  refine ⟨sel, d, hsel, hmem, hepoch, hpart, ?_, hnear⟩
  rw [hbase]
  decide +kernel

end Selector

end StakeAccounting

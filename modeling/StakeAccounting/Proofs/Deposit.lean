import StakeAccounting.Deposit
import StakeAccounting.Proofs.Ledger.Shape

/-!
# The lot of a deposit

What a deposit is worth is a matter of the price feed, and a feed may answer with
anything. It can still not spoil a ledger. A price has to be positive, the amount has to
be, and no table lists a negative multiplier, so the lot that is made of them is valid
(`Deposit.valid_newLot`) – and a valid lot is never refused by a ledger. This is what a
book relies on when it opens a ledger before the lot is added.
-/

namespace StakeAccounting

/-- A price is positive, whatever the feed answers. -/
theorem Token.price_pos {t : Token} {feed : PriceFeed} {amount baseValue : Decimal}
    (h : t.price feed amount = .ok baseValue) : .zero < baseValue := by
  have hasked : ∀ asked : Decimal,
      (if asked ≤ .zero then Outcome.refuse (.invalidAmount asked) else pure asked) =
        .ok baseValue → .zero < baseValue := by
    intro asked h
    split at h
    · cases h
    · rename_i hpos
      cases h
      exact Int.not_le.mp hpos
  unfold price at h
  cases hpricing : t.pricing with
  | direct =>
    rw [hpricing] at h
    exact hasked amount h
  | pooled =>
    rw [hpricing] at h
    obtain ⟨asked, -, h⟩ := Outcome.bind_eq_ok.mp h
    exact hasked asked h

namespace Deposit

variable {table : TokenTable} {feed : PriceFeed} {id : TokenId} {amount : Decimal}
  {epoch : Epoch} {l : Lot}

/-- **A deposit** makes a lot of a positive amount, with its price and what the token
grants for that. -/
theorem newLot_eq_ok (h : newLot table feed id amount epoch = .ok l) :
    .zero < amount ∧ ∃ t baseValue stakeWeight yieldRate, table.get id = .ok t ∧
      t.price feed amount = .ok baseValue ∧ t.stakePerBase.mul? baseValue = some stakeWeight ∧
      t.yieldPerBase.mul? baseValue = some yieldRate ∧
      l = ⟨epoch, amount, baseValue, stakeWeight, yieldRate⟩ := by
  unfold newLot at h
  split at h
  · cases h
  · rename_i hpos
    obtain ⟨t, ht, h⟩ := Outcome.bind_eq_ok.mp h
    obtain ⟨baseValue, hbase, h⟩ := Outcome.bind_eq_ok.mp h
    obtain ⟨stakeWeight, hstake, h⟩ := Outcome.bind_eq_ok.mp h
    obtain ⟨yieldRate, hyield, h⟩ := Outcome.bind_eq_ok.mp h
    cases h
    exact ⟨Int.not_le.mp hpos, t, baseValue, stakeWeight, yieldRate, ht, hbase,
      Decimal.times_eq_ok.mp hstake, Decimal.times_eq_ok.mp hyield, rfl⟩

/-- **The lot of a deposit is valid.** -/
theorem valid_newLot (h : newLot table feed id amount epoch = .ok l) : l.Valid := by
  obtain ⟨hpos, t, baseValue, stakeWeight, yieldRate, ht, hprice, hstake, hyield, rfl⟩ :=
    newLot_eq_ok h
  obtain ⟨hs, hy⟩ := TokenTable.multipliers_nonneg ht
  have hbase : 0 < baseValue.quanta := Token.price_pos hprice
  exact ⟨hpos, Int.le_of_lt hbase, Decimal.mul?_nonneg hstake hs (Int.le_of_lt hbase),
    Decimal.mul?_nonneg hyield hy (Int.le_of_lt hbase)⟩

end Deposit

end StakeAccounting

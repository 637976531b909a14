import StakeAccounting.Auction.State

/-!
# Sowing

To **sow** is to lend an amount at the current rate: the protocol takes it on as
debt and has that much less capacity. `AuctionState.previewSow` says what would
happen, `sow` does it. The amount has to be positive and within the capacity; a
sow that fails leaves the snapshot as it was.
-/

namespace StakeAccounting

/-- **What sowing an amount does.** -/
structure SowPreview where
  /-- The amount lent. -/
  amount : Decimal
  /-- The rate it is lent at. -/
  rate : Decimal
  /-- The debt the protocol takes on. -/
  debt : Decimal
  /-- The capacity that is left. -/
  capacityAfter : Decimal
deriving DecidableEq

namespace AuctionState

/-- **What sowing an amount would do** now. -/
def previewSow (s : AuctionState) (amount : Decimal) : Outcome SowPreview :=
  if amount ≤ .zero then Outcome.refuse (.invalidAmount amount)
  else if s.capacity < amount then Outcome.refuse (.insufficientCapacity amount s.capacity)
  else do
    let debt ← Capacity.debtFor amount s.currentRate
    let capacityAfter ← s.capacity.minus amount
    pure ⟨amount, s.currentRate, debt, capacityAfter⟩

/-- **Sow an amount.** -/
def sow (s : AuctionState) (amount : Decimal) : AuctionState × Outcome SowPreview :=
  match s.previewSow amount with
  | .ok preview => ({ s with capacity := preview.capacityAfter }, .ok preview)
  | .error failure => (s, .error failure)

end AuctionState

end StakeAccounting

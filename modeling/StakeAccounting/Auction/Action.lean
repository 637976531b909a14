import StakeAccounting.Auction.Sow
import StakeAccounting.History

/-!
# Actions of an auction

While an epoch runs, blocks pass and lenders sow, in any order. Each of the two
is an **action** on the snapshot, and `AuctionState.run` goes through a list of
them, recording what became of each.
-/

namespace StakeAccounting

namespace AuctionState

/-- **What happens to an auction.** -/
inductive Action where
  /-- A block passes. -/
  | advance
  /-- An amount is sown. -/
  | sow (amount : Decimal)
deriving DecidableEq

/-- **What an action answers with.** -/
inductive Effect where
  /-- The auction is one block further. -/
  | advanced
  /-- The amount was lent. -/
  | sown (preview : SowPreview)
deriving DecidableEq

/-- **Perform an action**: the snapshot afterwards, and what became of the
action. -/
def perform (s : AuctionState) : Action → AuctionState × Outcome Effect
  | .advance => (s.advance.1, (fun _ => .advanced) <$> s.advance.2)
  | .sow amount => ((s.sow amount).1, .sown <$> (s.sow amount).2)

/-- **Perform the actions of a list**, in order. -/
def run : AuctionState → List Action → AuctionState × List (Outcome Effect) := History.run perform

end AuctionState

end StakeAccounting

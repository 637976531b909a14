import StakeAccounting.Auction.Sow
import StakeAccounting.Snapshot.Deposits

/-!
# Snapshots of auctions

How rate curves, the parameters of an epoch, the state of an auction and sow
previews are written and read. Older snapshots of an auction have no curve; they
were taken with the one of the protocol.
-/

namespace StakeAccounting

instance : Snapshot RateCurve where
  encode x := .table
    [("rate_decimals", encode x.rateDecimals), ("min_rate", encode x.minRate)]
  decode c d := do
    let r ← Record.ofDocument c 2 d
    pure
      { rateDecimals := ← r.required 0 ["rate_decimals"] (decode c)
        minRate := ← r.required 1 ["min_rate"] (decode c) }

/-- The phases by name. -/
def AuctionPhase.names : List (String × AuctionPhase) :=
  [("auction", .auction), ("steady", .steady)]

instance : Snapshot AuctionPhase where
  encode
    | .auction => .text "auction"
    | .steady => .text "steady"
  decode c := Document.toVariant c AuctionPhase.names

instance : Snapshot EpochParams where
  encode p := .table
    [ ("epoch_start_block", encode p.epochStart), ("max_rate", encode p.maxRate),
      ("base_capacity", encode p.baseCapacity),
      ("above_equilibrium", encode p.aboveEquilibrium) ]
  decode c d := do
    let r ← Record.ofDocument c 4 d
    pure
      { epochStart := ← r.required 0 ["epoch_start_block"] (decode c)
        maxRate := ← r.required 1 ["max_rate"] (decode c)
        baseCapacity := ← r.required 2 ["base_capacity"] (decode c)
        aboveEquilibrium := ← r.required 3 ["above_equilibrium"] (decode c) }

instance : Snapshot AuctionState where
  encode s := .table
    [ ("epoch_start_block", encode s.epochStart), ("block_offset", encode s.offset),
      ("max_rate", encode s.maxRate), ("current_rate", encode s.currentRate),
      ("capacity", encode s.capacity), ("above_equilibrium", encode s.aboveEquilibrium),
      ("curve", encode s.curve) ]
  decode c d := do
    let r ← Record.ofDocument c 7 d
    pure
      { epochStart := ← r.required 0 ["epoch_start_block"] (decode c)
        offset := ← r.required 1 ["block_offset"] (decode c)
        maxRate := ← r.required 2 ["max_rate"] (decode c)
        currentRate := ← r.required 3 ["current_rate"] (decode c)
        capacity := ← r.required 4 ["capacity"] (decode c)
        aboveEquilibrium := ← r.required 5 ["above_equilibrium"] (decode c)
        curve := ← r.withDefault 6 ["curve"] (decode c) .standard }

instance : Snapshot SowPreview where
  encode p := .table
    [ ("amount", encode p.amount), ("rate", encode p.rate), ("debt", encode p.debt),
      ("capacity_after", encode p.capacityAfter) ]
  decode c d := do
    let r ← Record.ofDocument c 4 d
    pure
      { amount := ← r.required 0 ["amount"] (decode c)
        rate := ← r.required 1 ["rate"] (decode c)
        debt := ← r.required 2 ["debt"] (decode c)
        capacityAfter := ← r.required 3 ["capacity_after"] (decode c) }

end StakeAccounting

import StakeAccounting.Account
import StakeAccounting.Document
import StakeAccounting.Selection

/-!
# Snapshots of deposits

How epochs, accounts, tokens, lots, removals, selections and totals are written
and read. A lot's four amounts have a second name each, by which older snapshots
know them; an amount may be given under either name, but not under both.
-/

namespace StakeAccounting

instance : Snapshot Epoch where
  encode e := encode e.number
  decode c d := Epoch.mk <$> decode c d

instance : Snapshot Block where
  encode b := encode b.height
  decode c d := Block.mk <$> decode c d

instance : Snapshot Account where
  encode a := .list (a.bytes.map fun b => .whole b.toNat)
  decode _ d := do
    let bytes ← (← d.toList).mapM Document.toUInt8
    if h : bytes.length = 20 then .ok ⟨bytes, h⟩ else .error .wrongLength

instance : Snapshot TokenId where
  encode t := encode t.text
  decode c d := TokenId.ofText <$> decode c d

/-- The pricings by name. -/
def Pricing.names : List (String × Pricing) := [("direct", .direct), ("pooled", .pooled)]

instance : Snapshot Pricing where
  encode
    | .direct => .text "direct"
    | .pooled => .text "pooled"
  decode c := Document.toVariant c Pricing.names

/-- Only the pricing of a token has a default: it is its own price. -/
instance : Snapshot Token where
  encode t := .table
    [ ("id", encode t.id), ("symbol", encode t.symbol),
      ("stake_per_base", encode t.stakePerBase), ("yield_per_base", encode t.yieldPerBase),
      ("decimals", encode t.decimals), ("pricing", encode t.pricing) ]
  decode c d := do
    let r ← Record.ofDocument c 6 d
    pure
      { id := ← r.required 0 ["id"] (decode c)
        symbol := ← r.required 1 ["symbol"] (decode c)
        stakePerBase := ← r.required 2 ["stake_per_base"] (decode c)
        yieldPerBase := ← r.required 3 ["yield_per_base"] (decode c)
        decimals := ← r.required 4 ["decimals"] (decode c)
        pricing := ← r.withDefault 5 ["pricing"] (decode c) .direct }

instance : Snapshot Lot where
  encode l := .table
    [ ("epoch", encode l.epoch), ("raw_amount", encode l.rawAmount),
      ("base_value", encode l.baseValue), ("stake_weight", encode l.stakeWeight),
      ("yield_rate", encode l.yieldRate) ]
  decode c d := do
    let r ← Record.ofDocument c 5 d
    pure
      { epoch := ← r.required 0 ["epoch"] (decode c)
        rawAmount := ← r.required 1 ["raw_amount", "amount"] (decode c)
        baseValue := ← r.required 2 ["base_value", "bdv"] (decode c)
        stakeWeight := ← r.required 3 ["stake_weight", "stalk"] (decode c)
        yieldRate := ← r.required 4 ["yield_rate", "seeds"] (decode c) }

instance : Snapshot LotDelta where
  encode x := .table
    [ ("epoch", encode x.epoch), ("amount", encode x.amount), ("base_value", encode x.baseValue),
      ("yield_rate", encode x.yieldRate), ("base_stake_weight", encode x.baseStakeWeight),
      ("accrued_stake_weight", encode x.accruedStakeWeight),
      ("stake_weight", encode x.stakeWeight) ]
  decode c d := do
    let r ← Record.ofDocument c 7 d
    pure
      { epoch := ← r.required 0 ["epoch"] (decode c)
        amount := ← r.required 1 ["amount"] (decode c)
        baseValue := ← r.required 2 ["base_value"] (decode c)
        yieldRate := ← r.required 3 ["yield_rate"] (decode c)
        baseStakeWeight := ← r.required 4 ["base_stake_weight"] (decode c)
        accruedStakeWeight := ← r.required 5 ["accrued_stake_weight"] (decode c)
        stakeWeight := ← r.required 6 ["stake_weight"] (decode c) }

instance : Snapshot DeltaTotals where
  encode t := .table
    [ ("amount", encode t.amount), ("base_value", encode t.baseValue),
      ("yield_rate", encode t.yieldRate), ("stake_weight", encode t.stakeWeight) ]
  decode c d := do
    let r ← Record.ofDocument c 4 d
    pure
      { amount := ← r.required 0 ["amount"] (decode c)
        baseValue := ← r.required 1 ["base_value"] (decode c)
        yieldRate := ← r.required 2 ["yield_rate"] (decode c)
        stakeWeight := ← r.required 3 ["stake_weight"] (decode c) }

instance : Snapshot LedgerTotals where
  encode t := .table
    [ ("raw_amount", encode t.rawAmount), ("base_value", encode t.baseValue),
      ("yield_rate", encode t.yieldRate), ("base_stake_weight", encode t.baseStakeWeight),
      ("accrued_stake_weight", encode t.accruedStakeWeight) ]
  decode c d := do
    let r ← Record.ofDocument c 5 d
    pure
      { rawAmount := ← r.required 0 ["raw_amount"] (decode c)
        baseValue := ← r.required 1 ["base_value"] (decode c)
        yieldRate := ← r.required 2 ["yield_rate"] (decode c)
        baseStakeWeight := ← r.required 3 ["base_stake_weight"] (decode c)
        accruedStakeWeight := ← r.required 4 ["accrued_stake_weight"] (decode c) }

instance : Snapshot Selection where
  encode s := .table
    [ ("token", encode s.token), ("requested", encode s.requested), ("total", encode s.total),
      ("deltas", encode s.deltas) ]
  decode c d := do
    let r ← Record.ofDocument c 4 d
    pure
      { token := ← r.required 0 ["token"] (decode c)
        requested := ← r.required 1 ["requested"] (decode c)
        total := ← r.required 2 ["total"] (decode c)
        deltas := ← r.required 3 ["deltas"] (decode c) }

/-- The orders by name. -/
def SelectionOrder.names : List (String × SelectionOrder) :=
  [("NewestFirst", .newestFirst), ("HighestBaseValueRatio", .highestRatioFirst)]

instance : Snapshot SelectionOrder where
  encode
    | .newestFirst => .text "NewestFirst"
    | .highestRatioFirst => .text "HighestBaseValueRatio"
  decode c := Document.toVariant c SelectionOrder.names

end StakeAccounting

import StakeAccounting.Settings
import StakeAccounting.Snapshot.Auction
import StakeAccounting.Snapshot.Peg

/-!
# Snapshots of settings

Settings are written in full. They are read with a default for everything: a
section that is left out, or a part of a section, is as the protocol has it. So
the rate curve and the bounds, which as snapshots of their own have no defaults,
are read differently as sections of the settings.
-/

namespace StakeAccounting

namespace Settings

/-- Write the section of deposits. -/
def encodeDeposits (accrualRate : Decimal) : Document :=
  .table [("accrual_rate", encode accrualRate)]

/-- Read the section of deposits. -/
def decodeDeposits (c : Convention) (d : Document) : Decoded Decimal := do
  let r ← Record.ofDocument c 1 d
  r.withDefault 0 ["accrual_rate"] (decode c) Selector.standardAccrualRate

/-- Read the section of the rate curve. -/
def decodeCurve (c : Convention) (d : Document) : Decoded RateCurve := do
  let r ← Record.ofDocument c 2 d
  let std := RateCurve.standard
  pure
    { rateDecimals := ← r.withDefault 0 ["rate_decimals"] (decode c) std.rateDecimals
      minRate := ← r.withDefault 1 ["min_rate"] (decode c) std.minRate }

/-- Read the section of the bounds. -/
def decodeBounds (c : Convention) (d : Document) : Decoded PegBounds := do
  let r ← Record.ofDocument c 5 d
  let std := PegBounds.standard
  pure
    { debtRatioLower := ← r.withDefault 0 ["debt_ratio_lower"] (decode c) std.debtRatioLower
      debtRatioOptimal := ← r.withDefault 1 ["debt_ratio_optimal"] (decode c) std.debtRatioOptimal
      debtRatioUpper := ← r.withDefault 2 ["debt_ratio_upper"] (decode c) std.debtRatioUpper
      demandLower := ← r.withDefault 3 ["demand_lower"] (decode c) std.demandLower
      demandUpper := ← r.withDefault 4 ["demand_upper"] (decode c) std.demandUpper }

end Settings

instance : Snapshot Settings where
  encode s := .table
    [ ("silo", Settings.encodeDeposits s.accrualRate), ("tokens", encode s.tokens),
      ("field", encode s.curve), ("weather", encode s.bounds) ]
  decode c d := do
    let r ← Record.ofDocument c 4 d
    pure
      { accrualRate :=
          ← r.withDefault 0 ["silo"] (Settings.decodeDeposits c) Selector.standardAccrualRate
        tokens := ← r.withDefault 1 ["tokens"] (decode c) TokenTable.standardEntries
        curve := ← r.withDefault 2 ["field"] (Settings.decodeCurve c) .standard
        bounds := ← r.withDefault 3 ["weather"] (Settings.decodeBounds c) .standard }

end StakeAccounting

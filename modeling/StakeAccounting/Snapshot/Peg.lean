import StakeAccounting.Document
import StakeAccounting.Peg.Evaluation

/-!
# Snapshots of the peg

How bounds, bands, cases and outcomes are written and read.
-/

namespace StakeAccounting

instance : Snapshot PegBounds where
  encode b := .table
    [ ("debt_ratio_lower", encode b.debtRatioLower),
      ("debt_ratio_optimal", encode b.debtRatioOptimal),
      ("debt_ratio_upper", encode b.debtRatioUpper),
      ("demand_lower", encode b.demandLower), ("demand_upper", encode b.demandUpper) ]
  decode c d := do
    let r ← Record.ofDocument c 5 d
    pure
      { debtRatioLower := ← r.required 0 ["debt_ratio_lower"] (decode c)
        debtRatioOptimal := ← r.required 1 ["debt_ratio_optimal"] (decode c)
        debtRatioUpper := ← r.required 2 ["debt_ratio_upper"] (decode c)
        demandLower := ← r.required 3 ["demand_lower"] (decode c)
        demandUpper := ← r.required 4 ["demand_upper"] (decode c) }

/-- The bands of debt by name. -/
def DebtBand.names : List (String × DebtBand) :=
  [("low", .low), ("moderate", .moderate), ("high", .high)]

instance : Snapshot DebtBand where
  encode
    | .low => .text "low"
    | .moderate => .text "moderate"
    | .high => .text "high"
  decode c := Document.toVariant c DebtBand.names

/-- The sides of the peg by name. -/
def PriceSign.names : List (String × PriceSign) :=
  [("below", .below), ("at_or_above", .atOrAbove)]

instance : Snapshot PriceSign where
  encode
    | .below => .text "below"
    | .atOrAbove => .text "at_or_above"
  decode c := Document.toVariant c PriceSign.names

/-- The bands of demand by name. -/
def DemandBand.names : List (String × DemandBand) :=
  [("decreasing", .decreasing), ("steady", .steady), ("increasing", .increasing)]

instance : Snapshot DemandBand where
  encode
    | .decreasing => .text "decreasing"
    | .steady => .text "steady"
    | .increasing => .text "increasing"
  decode c := Document.toVariant c DemandBand.names

instance : Snapshot CaseId where
  encode n := .whole n.val
  decode _ d := do
    match CaseId.ofNat? (← d.toUInt8).toNat with
    | some n => .ok n
    | none => .error .outOfRange

instance : Snapshot CaseState where
  encode s := .table
    [("debt", encode s.debt), ("price", encode s.price), ("demand", encode s.demand)]
  decode c d := do
    let r ← Record.ofDocument c 3 d
    pure
      { debt := ← r.required 0 ["debt"] (decode c)
        price := ← r.required 1 ["price"] (decode c)
        demand := ← r.required 2 ["demand"] (decode c) }

instance : Snapshot CaseOutcome where
  encode o := .table
    [ ("case_id", encode o.caseId), ("magnitude", encode o.magnitude),
      ("state", encode o.state) ]
  decode c d := do
    let r ← Record.ofDocument c 3 d
    pure
      { caseId := ← r.required 0 ["case_id"] (decode c)
        magnitude := ← r.required 1 ["magnitude"] (decode c)
        state := ← r.required 2 ["state"] (decode c) }

end StakeAccounting

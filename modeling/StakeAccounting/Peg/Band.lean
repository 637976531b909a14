import StakeAccounting.Decimal.Basic

/-!
# Bands

Each signal falls into a **band**: debt is low, moderate or high, the price is
below the peg or at or above it, demand is decreasing, steady or increasing. A
band begins at its lower bound, so a signal on a bound belongs to the upper of
the two bands. A price exactly on the peg is at or above it as long as the debt
is at most optimal.

Bands have numbers, four apart for the price and eight apart for the debt, so
that the sum of three tells all of them (`StakeAccounting.Peg.Case`).
-/

namespace StakeAccounting

/-- **The bounds of the bands.** -/
structure PegBounds where
  /-- The debt ratio moderate debt begins at. -/
  debtRatioLower : Decimal
  /-- The greatest debt ratio at which a price on the peg counts as above. -/
  debtRatioOptimal : Decimal
  /-- The debt ratio high debt begins at. -/
  debtRatioUpper : Decimal
  /-- The change at which demand begins to be steady. -/
  demandLower : Decimal
  /-- The change at which demand begins to be increasing. -/
  demandUpper : Decimal
deriving DecidableEq

/-- The bounds of the protocol: 5, 15 and 25 percent of debt, and 5 percent of
demand to either side. -/
def PegBounds.standard : PegBounds where
  debtRatioLower := .percent 5
  debtRatioOptimal := .percent 15
  debtRatioUpper := .percent 25
  demandLower := .percent 95
  demandUpper := .percent 105

instance : Inhabited PegBounds := ⟨.standard⟩

/-- **How much debt there is.** -/
inductive DebtBand where
  | low
  | moderate
  | high
deriving DecidableEq

namespace DebtBand

/-- The band of a debt ratio. -/
def ofRatio (debtRatio : Decimal) (bounds : PegBounds) : DebtBand :=
  if bounds.debtRatioUpper ≤ debtRatio then high
  else if bounds.debtRatioLower ≤ debtRatio then moderate
  else low

/-- The number of the band. -/
def offset : DebtBand → Nat
  | low => 0
  | moderate => 8
  | high => 16

end DebtBand

/-- **Where the price is.** -/
inductive PriceSign where
  | below
  | atOrAbove
deriving DecidableEq

namespace PriceSign

/-- The side of the peg a price deviation is on. On the peg, it depends on the
debt. -/
def ofDeviation (deviation debtRatio : Decimal) (bounds : PegBounds) : PriceSign :=
  if .zero < deviation ∨ deviation.isZero ∧ debtRatio ≤ bounds.debtRatioOptimal then atOrAbove
  else below

/-- The number of the side. -/
def offset : PriceSign → Nat
  | below => 0
  | atOrAbove => 4

end PriceSign

/-- **Where demand is going.** -/
inductive DemandBand where
  | decreasing
  | steady
  | increasing
deriving DecidableEq

namespace DemandBand

/-- The band of a change of demand. -/
def ofDelta (demandDelta : Decimal) (bounds : PegBounds) : DemandBand :=
  if bounds.demandUpper ≤ demandDelta then increasing
  else if bounds.demandLower ≤ demandDelta then steady
  else decreasing

/-- The number of the band. -/
def offset : DemandBand → Nat
  | decreasing => 0
  | steady => 1
  | increasing => 2

end DemandBand

end StakeAccounting

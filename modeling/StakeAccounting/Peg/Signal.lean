import StakeAccounting.Decimal.Quotient

/-!
# Signals

At the end of an epoch three **signals** say how the peg is doing: the
outstanding debt against the supply, the demand against that of the epoch
before, and how far the price is from one. The first two are ratios, and a ratio
to nothing is settled by a rule: something against nothing is the greatest
decimal, nothing against nothing is no debt, or steady demand. A quotient that is
out of range counts as the greatest decimal, too.
-/

namespace StakeAccounting

namespace Signal

/-- The ratio reported where there is none in range. -/
def saturated : Decimal := .greatest

/-- A ratio; `idle` is the answer where neither side is positive. -/
def ratioOr (idle part whole : Decimal) : Decimal :=
  if whole ≤ .zero then if .zero < part then saturated else idle
  else (part.div? whole).getD saturated

/-- **The debt ratio**: outstanding debt over supply; no debt without supply is
zero. -/
def debtRatio (outstandingDebt supply : Decimal) : Decimal :=
  ratioOr .zero outstandingDebt supply

/-- **The change of demand**: that of this epoch over that of the last; no
demand in either is steady. -/
def demandDelta (thisEpoch lastEpoch : Decimal) : Decimal :=
  ratioOr .one thisEpoch lastEpoch

/-- **The deviation of the price** from one, with its sign. -/
def priceDeviation (price : Decimal) : Decimal := price.subSaturating .one

end Signal

end StakeAccounting

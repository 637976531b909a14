import StakeAccounting.Lot
import StakeAccounting.Token

/-!
# Deposits

A deposit turns an amount of a token into a lot. What the amount is worth, its
**base value**, is the amount itself for a token that is its own price, and is
asked of a **price feed** for a pooled one. The token's multipliers then grant
stake weight and yield rate in proportion to the base value.

A feed is a function, so the same question always has the same answer; prices
are fetched before and not while an amount is valued.
-/

namespace StakeAccounting

/-- **A price feed**: the base value of an amount of a pooled token. -/
abbrev PriceFeed : Type := Token → Decimal → Outcome Decimal

namespace PriceFeed

/-- The feed that knows no price, for callers who deposit no pooled token. -/
def none : PriceFeed := fun t _ => Outcome.refuseSettings (.noPriceFeed t.symbol)

/-- The feed with one price per unit for all tokens. -/
def perUnit (price : Decimal) : PriceFeed := fun _ amount => amount.times price

/-- The feed that gives every amount the same base value. -/
def flat (baseValue : Decimal) : PriceFeed := fun _ _ => .ok baseValue

end PriceFeed

/-- **The price of an amount of a token.** It has to be positive. -/
def Token.price (t : Token) (feed : PriceFeed) (amount : Decimal) : Outcome Decimal := do
  let baseValue ← match t.pricing with
    | .direct => pure amount
    | .pooled => feed t amount
  if baseValue ≤ .zero then Outcome.refuse (.invalidAmount baseValue)
  else pure baseValue

namespace Deposit

/-- **The base value of an amount**: the amount has to be positive, the token
listed, and the price positive, in this order. -/
def baseValue (table : TokenTable) (feed : PriceFeed) (id : TokenId) (amount : Decimal) :
    Outcome Decimal :=
  if amount ≤ .zero then Outcome.refuse (.invalidAmount amount)
  else do
    let t ← table.get id
    t.price feed amount

/-- **The lot a deposit makes** at the given epoch. -/
def newLot (table : TokenTable) (feed : PriceFeed) (id : TokenId) (amount : Decimal)
    (epoch : Epoch) : Outcome Lot :=
  if amount ≤ .zero then Outcome.refuse (.invalidAmount amount)
  else do
    let t ← table.get id
    let baseValue ← t.price feed amount
    let stakeWeight ← t.stakeWeightFor baseValue
    let yieldRate ← t.yieldRateFor baseValue
    pure ⟨epoch, amount, baseValue, stakeWeight, yieldRate⟩

end Deposit

end StakeAccounting

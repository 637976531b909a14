import StakeAccounting.Outcome

/-!
# Capacity and debt

The **capacity** is how much the protocol borrows at the current rate. Above
equilibrium it shrinks as the rate rises, so that the debt it would take on,
`capacity · (100 + rate)`, stays what it is. Debt and capacity are rounded
**down** to six places, so neither is ever reported too high.

All three functions are one: `scaleFloor` carries a value from one rate to
another. Where an intermediate result is out of range, the value is refused.
-/

namespace StakeAccounting

namespace Capacity

/-- The decimal places of capacities and debts. -/
def places : Nat := 6

/-- A hundred percent. -/
def hundred : Decimal := .ofUInt32 100

/-- **`value · (100 + numerator) / (100 + denominator)`**, rounded down to six
places. -/
def scaleFloor (value numerator denominator : Decimal) : Outcome Decimal :=
  Outcome.orRefuse (.invalidAmount value) do
    let num ← hundred.add? numerator
    let product ← value.mul? num
    let den ← hundred.add? denominator
    let quotient ← product.div? den
    pure (quotient.roundDown places)

/-- **The capacity one block later**, from the rate now and then. Below
equilibrium the capacity does not follow the rate. -/
def next (capacity currentRate nextRate : Decimal) (aboveEquilibrium : Bool) : Outcome Decimal :=
  if aboveEquilibrium then scaleFloor capacity currentRate nextRate else pure capacity

/-- **The capacity at a rate** below the maximum, from the capacity at the
maximum. -/
def atRate (baseCapacity maxRate rate : Decimal) : Outcome Decimal :=
  if maxRate ≤ rate ∨ baseCapacity.isZero then pure baseCapacity
  else scaleFloor baseCapacity maxRate rate

/-- **The debt issued** for lending an amount at a rate. -/
def debtFor (amount rate : Decimal) : Outcome Decimal := scaleFloor amount rate .zero

end Capacity

end StakeAccounting

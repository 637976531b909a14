import StakeAccounting.Outcome

/-!
# The rate curve

During the first 25 blocks of an epoch – the **window** – the rate climbs to the
epoch's maximum along a logarithm: `d` blocks after the start it is the maximum
times `log₅₁ (2d + 1)`. The logarithms are listed to twelve places, rounded down
(`RateCurve.fractions`), so none is computed. The scaled rate is rounded **up**,
so that it is never reported too low, and then held between the least rate and
the maximum; the maximum wins where the two are in conflict.

Rates are percentages: a rate of one is one percent.
-/

namespace StakeAccounting

/-- **A rate curve**, by how it rounds. -/
structure RateCurve where
  /-- The decimal places a scaled rate is rounded up to. -/
  rateDecimals : UInt32
  /-- The least rate inside the window, as far as the maximum allows it. -/
  minRate : Decimal
deriving DecidableEq

namespace RateCurve

/-- The curve of the protocol: six places, at least one percent. -/
def standard : RateCurve := ⟨6, .one⟩

instance : Inhabited RateCurve := ⟨standard⟩

/-- The blocks of the window. -/
def windowBlocks : UInt64 := 25

/-- The decimal places of the listed fractions. -/
def fractionPlaces : Nat := 12

/-- **The curve at each block of the window**, in units of `10^-12`. -/
def fractions : List Nat :=
  [0, 279415312704, 409336034395, 494912626048, 558830625409,
   609868162219, 652355825780, 688751347100, 720584687295, 748873234524,
   774327938752, 797465225780, 818672068791, 838245938114, 856420437864,
   873382373802, 889283474924, 904248660443, 918382006208, 931771138485,
   944490527707, 956603996980, 968166659804, 979226436102, 989825252096]

/-- The list is as long as the window. -/
theorem length_fractions : fractions.length = windowBlocks.toNat := rfl

/-- No fraction exceeds one. -/
theorem fractions_le : ∀ n ∈ fractions, n ≤ tens fractionPlaces := by decide

/-- **The fraction of the maximum** at an offset; none outside the window. -/
def fraction? (offset : UInt64) : Option Decimal :=
  fractions[offset.toNat]?.bind fun n => Decimal.ofParts? false n fractionPlaces

/-- **The rate** at an offset from the start of the epoch, for a given maximum.
Without a positive maximum there is no rate; outside the window it is the
maximum. -/
def rateAt (c : RateCurve) (offset : UInt64) (maxRate : Decimal) : Outcome Decimal :=
  if maxRate ≤ .zero then pure .zero
  else
    match fraction? offset with
    | none => pure maxRate
    | some f => do
      let scaled ← maxRate.times f
      pure (((scaled.roundUp c.rateDecimals.toNat).max (c.minRate.min maxRate)).min maxRate)

/-- Two curves that round alike, their least rates being equal in value. -/
def Same (c d : RateCurve) : Prop := c.rateDecimals = d.rateDecimals ∧ c.minRate.Same d.minRate

instance (c d : RateCurve) : Decidable (c.Same d) := inferInstanceAs (Decidable (_ ∧ _))

/-- Without a positive maximum the rate is zero. -/
theorem rateAt_of_not_pos {c : RateCurve} {offset : UInt64} {maxRate : Decimal}
    (h : maxRate ≤ .zero) : c.rateAt offset maxRate = .ok .zero := by
  rw [rateAt, if_pos h]
  rfl

end RateCurve

end StakeAccounting

import StakeAccounting.Auction.Sow
import StakeAccounting.Proofs.Auction.Walk
import StakeAccounting.Proofs.Outcome

/-!
# How an auction fails

Of the arithmetic of an auction some is guarded, and a value that is out of range is refused. The
rest is not, and would overflow. It does not, whatever a snapshot says: the product that a rate is
scaled by is within the maximum (`RateCurve.exists_rateAt`), and what is taken from the capacity is
no more than the capacity (`Decimal.exists_minus_of_le`). Nor is anything divided by zero, since a
hundred percent is added to a rate before, and no rate of a curve is negative
(`Capacity.positiveDivisor_of_rateAt`); the rate that a snapshot claims to have is not divided by.

So there is not much left that can go wrong (`fails_cleanly`): a value that cannot be carried, and
for a sow an amount that is not positive or not covered. A step or a sow that fails leaves the
snapshot as it was.
-/

namespace StakeAccounting

open Decimal Capacity

namespace Capacity

variable {v r s : Decimal}

/-- **A capacity is refused**: it follows the rate, and cannot be carried to it. -/
def Refuses (v : Decimal) (aboveEquilibrium : Bool) (f : Failure) : Prop :=
  aboveEquilibrium = true ∧ f = .refused (.invalidAmount v)

end Capacity

namespace AuctionState

variable {curve : RateCurve} {p : EpochParams} {s t : AuctionState} {amount : Decimal}
  {f : Failure} {items : List (Outcome AuctionState)}

/-! ## Capturing and stepping -/

/-- A snapshot that claims the greatest capacity, and a rate of minus two hundred percent. -/
def outOfRange : AuctionState :=
  ⟨⟨100⟩, 3, .ofUInt32 10, -.ofUInt32 200, greatest, true, .standard⟩

end AuctionState

end StakeAccounting

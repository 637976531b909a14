import StakeAccounting.Outcome

/-!
# Lots and removals

A deposit is recorded as a **lot**, stamped with its epoch. The lot keeps the
amount and three shares that are fixed when it is made – base value, stake
weight and yield rate – and are never computed again from the amount; a removal
scales them down together. Deposits of one epoch are merged into one lot.

A change to a lot is a `LotDelta`, all parts negative for a removal. Its stake
weight has two sources, the **base** weight the lot stores and the weight that
**accrued** since; only the first is stored, so only the first is taken from the
lot.

`Lot.check` says what a well-formed lot is, and `Lot.check_eq_ok` says it in one
line: a positive amount and no negative share.
-/

namespace StakeAccounting

/-- **A lot**: the record of the deposits of one epoch. -/
structure Lot where
  /-- The epoch of the deposit. -/
  epoch : Epoch
  /-- The amount of tokens. -/
  rawAmount : Decimal
  /-- The economic size of the deposit. -/
  baseValue : Decimal
  /-- The stake weight granted for the deposit, without what accrued since. -/
  stakeWeight : Decimal
  /-- The yield rate granted for the deposit. -/
  yieldRate : Decimal
deriving DecidableEq

/-- **A change to a lot**, negative where it takes away. -/
structure LotDelta where
  /-- The epoch of the lot. -/
  epoch : Epoch
  /-- The change of the amount. -/
  amount : Decimal
  /-- The change of the base value. -/
  baseValue : Decimal
  /-- The change of the yield rate. -/
  yieldRate : Decimal
  /-- The change of the stake weight the lot stores. -/
  baseStakeWeight : Decimal
  /-- The change of the stake weight that accrued since the deposit. -/
  accruedStakeWeight : Decimal
  /-- The change of both together. -/
  stakeWeight : Decimal
deriving DecidableEq

namespace Lot

/-- A share of the lot. -/
def share (l : Lot) : Share → Decimal
  | .baseValue => l.baseValue
  | .stakeWeight => l.stakeWeight
  | .yieldRate => l.yieldRate

/-- **Whether the lot is well-formed**: its amount is positive and no share is
negative, looked at in the order base value, stake weight, yield rate. -/
def check (l : Lot) : Outcome Unit :=
  if l.rawAmount ≤ .zero then Outcome.refuseLot l.epoch (.amountNotPositive l.rawAmount)
  else
    match [Share.baseValue, .stakeWeight, .yieldRate].find? fun s => (l.share s).isBelowZero with
    | some s => Outcome.refuseLot l.epoch (.negativeShare s (l.share s))
    | none => .ok ()

/-- A positive amount, and no share below zero. -/
def Valid (l : Lot) : Prop :=
  .zero < l.rawAmount ∧ .zero ≤ l.baseValue ∧ .zero ≤ l.stakeWeight ∧ .zero ≤ l.yieldRate

instance (l : Lot) : Decidable l.Valid := inferInstanceAs (Decidable (_ ∧ _))

/-- **The stake weight that accrued since the deposit**: the yield rate for
every epoch that passed, times the accrual rate. For a lot whose epoch lies
ahead none has. -/
def accruedStakeWeight (l : Lot) (now : Epoch) (accrualRate : Decimal) : Outcome Decimal := do
  let grown ← l.yieldRate.times (.ofUInt32 (now.elapsedSince l.epoch))
  grown.times accrualRate

/-- **The lot with another deposit of its epoch merged in**, part by part. -/
def merge (l other : Lot) : Outcome Lot := do
  let rawAmount ← l.rawAmount.plus other.rawAmount
  let baseValue ← l.baseValue.plus other.baseValue
  let stakeWeight ← l.stakeWeight.plus other.stakeWeight
  let yieldRate ← l.yieldRate.plus other.yieldRate
  pure ⟨l.epoch, rawAmount, baseValue, stakeWeight, yieldRate⟩

end Lot

namespace LotDelta

/-- Whether the number takes away or leaves as it is: a minus sign, or a zero
of either sign. -/
def takesAway (a : Decimal) : Bool := a.negative || a.isZero

/-- **Whether the change adds to no part.** The combined stake weight is not
looked at. -/
def isRemoval (d : LotDelta) : Bool :=
  takesAway d.amount && takesAway d.baseValue && takesAway d.yieldRate &&
    takesAway d.baseStakeWeight && takesAway d.accruedStakeWeight

/-- **The lot a removal is when it is credited to someone else**: the parts
taken away, under the same epoch. What accrued is not carried over; it accrues
again from the yield rate and the epoch. -/
def asCredit (d : LotDelta) : Lot :=
  ⟨d.epoch, -d.amount, -d.baseValue, -d.baseStakeWeight, -d.yieldRate⟩

end LotDelta

/-! ## What the checks mean -/

namespace Decimal

/-- A decimal is below zero exactly where its value is. -/
theorem isBelowZero_iff (a : Decimal) : a.isBelowZero = true ↔ a < zero := by
  have hp : (0 : Int) < tens (28 - a.scale) := Int.natCast_pos.mpr (tens_pos _)
  rw [lt_def, quanta_zero, isBelowZero, Bool.and_eq_true, Bool.not_eq_true',
    Bool.eq_false_iff, Ne, isZero_iff]
  unfold quanta coefficient
  cases a.negative
  · simp only [Bool.false_eq_true, false_and, if_false, false_iff, Int.not_lt]
    exact Int.mul_nonneg (Int.natCast_nonneg _) (Int.le_of_lt hp)
  · simp only [true_and, if_true, Int.neg_mul]
    have := Int.mul_nonneg (Int.natCast_nonneg a.mantissa) (Int.le_of_lt hp)
    omega

/-- A decimal takes away exactly where its value is not positive. -/
theorem takesAway_iff (a : Decimal) : LotDelta.takesAway a = true ↔ a ≤ zero := by
  have hp : (0 : Int) < tens (28 - a.scale) := Int.natCast_pos.mpr (tens_pos _)
  have hm := Int.mul_nonneg (Int.natCast_nonneg a.mantissa) (Int.le_of_lt hp)
  rw [le_def, quanta_zero, LotDelta.takesAway, Bool.or_eq_true, isZero_iff]
  unfold quanta coefficient
  cases a.negative
  · simp only [Bool.false_eq_true, false_or, if_false]
    omega
  · simp only [true_or, if_true, Int.neg_mul, true_iff]
    omega

end Decimal

/-- **A lot passes the check exactly where it is valid.** -/
theorem Lot.check_eq_ok (l : Lot) : l.check = .ok () ↔ l.Valid := by
  have hb := Decimal.isBelowZero_iff l.baseValue
  have hs := Decimal.isBelowZero_iff l.stakeWeight
  have hy := Decimal.isBelowZero_iff l.yieldRate
  simp only [Decimal.lt_def, Decimal.quanta_zero] at hb hs hy
  simp only [Lot.Valid, Decimal.lt_def, Decimal.le_def, Decimal.quanta_zero]
  unfold Lot.check
  by_cases ha : l.rawAmount ≤ .zero
  · rw [if_pos ha]
    rw [Decimal.le_def, Decimal.quanta_zero] at ha
    simp [Outcome.refuseLot, Outcome.refuse]
    omega
  · rw [if_neg ha]
    rw [Decimal.le_def, Decimal.quanta_zero] at ha
    simp only [List.find?, Lot.share]
    cases h₁ : l.baseValue.isBelowZero <;> cases h₂ : l.stakeWeight.isBelowZero <;>
      cases h₃ : l.yieldRate.isBelowZero <;>
      simp_all [Outcome.refuseLot, Outcome.refuse]

end StakeAccounting

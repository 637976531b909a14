import StakeAccounting.Decimal.Tens

/-!
# Decimal quantities

Every amount the library counts – tokens, stake weight, rates, capacity – is a
**decimal**: a sign, a mantissa below `2^96` and a scale of at most 28 decimal
places, standing for `± mantissa / 10^scale`. The scale is part of the number:
`1.50` and `1.5` have one value and two texts, and the operations say which
scale their result carries. So two notions of sameness live side by side:
equality, which sees the scale and the sign of a zero, and `Decimal.Same`,
which sees the value only.

The value is read through `Decimal.quanta`, the number of units of `10^-28`.
Since no scale exceeds 28 this is a whole number, and comparing two decimals is
comparing two integers.
-/

namespace StakeAccounting

/-- What a mantissa stays below: the number with a one in front of 96 binary
zeros. -/
def Decimal.mantissaBound : Nat := 0x1000000000000000000000000

/-- **A decimal quantity**: `± mantissa / 10^scale`. -/
structure Decimal where
  /-- Whether the number carries a minus sign; a zero may carry one. -/
  negative : Bool
  /-- The digits of the number, read as one whole number. -/
  mantissa : Nat
  /-- How many of the digits stand behind the point. -/
  scale : Nat
  /-- The mantissa fits in 96 bits. -/
  mantissa_lt : mantissa < Decimal.mantissaBound := by decide
  /-- At most 28 digits stand behind the point. -/
  scale_le : scale ≤ 28 := by decide
deriving DecidableEq

namespace Decimal

/-- Zero without decimal places. -/
def zero : Decimal := ⟨false, 0, 0, by decide, by decide⟩

/-- One without decimal places. -/
def one : Decimal := ⟨false, 1, 0, by decide, by decide⟩

/-- The greatest decimal, `2^96 - 1`. -/
def greatest : Decimal := ⟨false, mantissaBound - 1, 0, by decide, by decide⟩

instance : Inhabited Decimal := ⟨zero⟩

/-- The most decimal places there are. -/
def maxPlaces : UInt32 := 28

/-- The decimal with the given parts, if they are in range. -/
def ofParts? (negative : Bool) (mantissa scale : Nat) : Option Decimal :=
  if h : mantissa < mantissaBound ∧ scale ≤ 28 then
    some ⟨negative, mantissa, scale, h.1, h.2⟩
  else
    none

/-- A 32-bit word has fewer digits than a mantissa. -/
theorem toNat_lt_mantissaBound (n : UInt32) : n.toNat < mantissaBound :=
  Nat.lt_trans n.toNat_lt (by decide)

/-- The whole number of a 32-bit word. -/
def ofUInt32 (n : UInt32) : Decimal := ⟨false, n.toNat, 0, toNat_lt_mantissaBound n, by decide⟩

/-- So many hundredths. -/
def percent (n : UInt32) : Decimal := ⟨false, n.toNat, 2, toNat_lt_mantissaBound n, by decide⟩

/-- So many ten-thousandths. -/
def basisPoints (n : UInt32) : Decimal :=
  ⟨false, n.toNat, 4, toNat_lt_mantissaBound n, by decide⟩

/-- The whole number `n`, if its digits fit. -/
def ofInt? (n : Int) : Option Decimal :=
  ofParts? (decide (n < 0)) n.natAbs 0

/-- The mantissa with its sign. -/
def coefficient (a : Decimal) : Int :=
  if a.negative then -(a.mantissa : Int) else a.mantissa

/-- **The value in units of `10^-28`**: a whole number, since no scale
exceeds 28. -/
def quanta (a : Decimal) : Int := a.coefficient * tens (28 - a.scale)

/-- The value as a fraction. -/
def value (a : Decimal) : Rat := mkRat a.coefficient (tens a.scale)

/-! ## Comparing values -/

instance : LE Decimal := ⟨fun a b => a.quanta ≤ b.quanta⟩

instance : LT Decimal := ⟨fun a b => a.quanta < b.quanta⟩

instance (a b : Decimal) : Decidable (a ≤ b) :=
  inferInstanceAs (Decidable (a.quanta ≤ b.quanta))

instance (a b : Decimal) : Decidable (a < b) :=
  inferInstanceAs (Decidable (a.quanta < b.quanta))

/-- **Equal in value**: the scales may differ, and so may the signs of two
zeros. -/
def Same (a b : Decimal) : Prop := a.quanta = b.quanta

instance (a b : Decimal) : Decidable (a.Same b) :=
  inferInstanceAs (Decidable (a.quanta = b.quanta))

theorem le_def (a b : Decimal) : a ≤ b ↔ a.quanta ≤ b.quanta := Iff.rfl

theorem lt_def (a b : Decimal) : a < b ↔ a.quanta < b.quanta := Iff.rfl

theorem same_def (a b : Decimal) : a.Same b ↔ a.quanta = b.quanta := Iff.rfl

protected theorem le_refl (a : Decimal) : a ≤ a := Int.le_refl _

protected theorem le_trans {a b c : Decimal} (hab : a ≤ b) (hbc : b ≤ c) : a ≤ c :=
  Int.le_trans hab hbc

protected theorem le_of_lt {a b : Decimal} (h : a < b) : a ≤ b := Int.le_of_lt h

protected theorem not_le {a b : Decimal} : ¬a ≤ b ↔ b < a := Int.not_le

protected theorem not_lt {a b : Decimal} : ¬a < b ↔ b ≤ a := Int.not_lt

/-- Values that are at most each other are equal. -/
theorem same_of_le {a b : Decimal} (hab : a ≤ b) (hba : b ≤ a) : a.Same b :=
  Int.le_antisymm hab hba

@[simp] theorem quanta_zero : zero.quanta = 0 := rfl

@[simp] theorem quanta_one : one.quanta = tens 28 := rfl

/-- A number without a minus sign is not below zero. -/
theorem quanta_nonneg {a : Decimal} (h : a.negative = false) : 0 ≤ a.quanta := by
  rw [quanta, coefficient, h, if_neg (by decide)]
  exact Int.mul_nonneg (Int.natCast_nonneg _) (Int.natCast_nonneg _)

/-- Whether the value is zero, whatever sign it carries. -/
def isZero (a : Decimal) : Bool := a.mantissa == 0

/-- A decimal is zero exactly where it counts no quanta. -/
theorem isZero_iff (a : Decimal) : a.isZero = true ↔ a.quanta = 0 := by
  have hp : (tens (28 - a.scale) : Int) ≠ 0 := by
    have := tens_pos (28 - a.scale)
    omega
  rw [quanta, Int.mul_eq_zero, or_iff_left hp, isZero, beq_iff_eq, coefficient]
  split <;> omega

/-- Whether the value is below zero: a minus sign on a number that is not
zero. -/
def isBelowZero (a : Decimal) : Bool := a.negative && !a.isZero

/-- The smaller of the two values; the first of two equal ones. -/
protected def min (a b : Decimal) : Decimal := if b < a then b else a

/-- The greater of the two values; the first of two equal ones. -/
protected def max (a b : Decimal) : Decimal := if a < b then b else a

theorem quanta_min (a b : Decimal) : (a.min b).quanta = min a.quanta b.quanta := by
  unfold Decimal.min
  split <;> rename_i h <;> rw [lt_def] at h <;> omega

theorem quanta_max (a b : Decimal) : (a.max b).quanta = max a.quanta b.quanta := by
  unfold Decimal.max
  split <;> rename_i h <;> rw [lt_def] at h <;> omega

/-! ## The other sign -/

/-- The number with the other sign; a zero changes its sign, too. -/
protected def neg (a : Decimal) : Decimal := { a with negative := !a.negative }

instance : Neg Decimal := ⟨Decimal.neg⟩

@[simp] theorem coefficient_neg (a : Decimal) : (-a).coefficient = -a.coefficient := by
  show (Decimal.neg a).coefficient = _
  unfold Decimal.neg coefficient
  cases a.negative <;> simp

@[simp] theorem quanta_neg (a : Decimal) : (-a).quanta = -a.quanta := by
  show (-a).coefficient * tens (28 - a.scale) = -(a.coefficient * tens (28 - a.scale))
  rw [coefficient_neg, Int.neg_mul]

@[simp] theorem neg_neg (a : Decimal) : -(-a) = a := by
  show Decimal.neg (Decimal.neg a) = a
  unfold Decimal.neg
  simp

end Decimal

end StakeAccounting

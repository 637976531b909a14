import StakeAccounting.Decimal.Rounding

/-!
# Sums and products

The exact sum or product of two decimals is formed first and then fitted into
a decimal (`Decimal.fit?`), so each operation rounds once, half to even, and is
exact whenever the exact result has at most 28 places and 96 bits. The scale of
a sum is the larger of the two scales, that of a product their sum – except
that a zero summand leaves the other number as it is, and a product with a zero
is the plain zero.

`add?`, `sub?` and `mul?` have no result when the exact one is out of range;
the saturating forms then answer with the extreme decimal on the first
operand's side.
-/

namespace StakeAccounting

namespace Decimal

/-- **The sum**, if it is in range. A zero summand leaves the other number
unchanged, its scale included; a sum that cancels is a positive zero. -/
def add? (a b : Decimal) : Option Decimal :=
  if a.mantissa = 0 then some b
  else if b.mantissa = 0 then some a
  else
    let s := max a.scale b.scale
    let n := a.coefficient * tens (s - a.scale) + b.coefficient * tens (s - b.scale)
    fit? (decide (n < 0)) n.natAbs s

/-- **The difference**, if it is in range: the sum with the negated number.
Of two zeros it is the second, as it stands. -/
def sub? (a b : Decimal) : Option Decimal :=
  if a.mantissa = 0 then some (if b.mantissa = 0 then b else -b)
  else if b.mantissa = 0 then some a
  else add? a (-b)

/-- Whether both mantissas fit in 32 bits, where a product that underflows
loses its sign. -/
def bothShort (a b : Decimal) : Bool :=
  a.mantissa < 0x100000000 && b.mantissa < 0x100000000

/-- **The product**, if it is in range. A product with a zero is the plain
zero. So is one of two short mantissas with more than 47 places, all of which
vanish; otherwise a product that rounds to zero keeps its 28 places, and of two
short mantissas also drops its sign. -/
def mul? (a b : Decimal) : Option Decimal :=
  if a.mantissa = 0 ∨ b.mantissa = 0 then some zero
  else if bothShort a b ∧ 47 < a.scale + b.scale then some zero
  else
    (fit? (a.negative != b.negative) (a.mantissa * b.mantissa) (a.scale + b.scale)).map fun c =>
      if bothShort a b && c.mantissa == 0 then { c with negative := false } else c

/-- The extreme decimal on `a`'s side of zero. -/
def extremeLike (a : Decimal) : Decimal := if a.negative then -greatest else greatest

/-- The sum, or the extreme decimal on the first number's side. -/
def addSaturating (a b : Decimal) : Decimal := (add? a b).getD a.extremeLike

/-- The difference, or the extreme decimal on the first number's side. -/
def subSaturating (a b : Decimal) : Decimal := (sub? a b).getD a.extremeLike

/-! ## Exact cases -/

/-- A zero in front adds nothing. -/
theorem add?_of_left_zero {a b : Decimal} (h : a.mantissa = 0) : add? a b = some b := by
  rw [add?, if_pos h]

/-- A zero behind adds nothing. -/
theorem add?_of_right_zero {a b : Decimal} (ha : a.mantissa ≠ 0) (h : b.mantissa = 0) :
    add? a b = some a := by
  rw [add?, if_neg ha, if_pos h]

@[simp] theorem zero_add? (b : Decimal) : add? zero b = some b := add?_of_left_zero rfl

/-- A product with a zero is the plain zero. -/
theorem mul?_of_left_zero {a b : Decimal} (h : a.mantissa = 0) : mul? a b = some zero := by
  rw [mul?, if_pos (Or.inl h)]

/-- A product with a zero is the plain zero. -/
theorem mul?_of_right_zero {a b : Decimal} (h : b.mantissa = 0) : mul? a b = some zero := by
  rw [mul?, if_pos (Or.inr h)]

end Decimal

end StakeAccounting

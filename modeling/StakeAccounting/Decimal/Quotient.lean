import StakeAccounting.Decimal.Arithmetic

/-!
# Quotients

A quotient is found by **long division**: starting from the whole quotient of
the mantissas, up to nine decimal places at a time are brought down until
nothing remains, or until the mantissa or the scale is full and the last digit
is rounded half to even. The number of places a quotient is written with is the
number the division went through, less the zeros that `trimmed` takes off: it
tries eight, four, two and one of them, so a quotient may keep a zero at its
end (`1 / 2` is `0.50`).

There is no quotient by zero, and none out of range.
-/

namespace StakeAccounting

namespace Decimal

/-- **Where a long division stands**: `dividend = (quotient + remainder /
divisor) · 10^-scale`. The scale is negative as long as the dividend has fewer
places than the divisor. -/
structure LongDivision where
  /-- The digits found so far. -/
  quotient : Nat
  /-- What is left to divide. -/
  remainder : Nat
  /-- The scale of the last digit found. -/
  scale : Int
deriving DecidableEq

namespace LongDivision

/-- Bring down `x` more decimal places. -/
def bringDown (divisor x : Nat) (w : LongDivision) : LongDivision where
  quotient := w.quotient * tens x + w.remainder * tens x / divisor
  remainder := w.remainder * tens x % divisor
  scale := w.scale + x

/-- How many of at most `n` further places leave room in the mantissa. -/
def roomFor (quotient : Nat) : Nat → Nat
  | 0 => 0
  | n + 1 => if quotient * tens (n + 1) < mantissaBound then n + 1 else roomFor quotient n

/-- The digits and the scale, if the scale is not negative. -/
def settled (quotient : Nat) (scale : Int) : Option (Nat × Nat) :=
  if 0 ≤ scale then some (quotient, scale.toNat) else none

/-- Close a full division: the remainder rounds the last digit half to even,
and if that fills the mantissa, one place is given up. -/
def closed (divisor : Nat) (w : LongDivision) : Option (Nat × Nat) :=
  let q :=
    if 2 * w.remainder < divisor then w.quotient
    else if divisor < 2 * w.remainder then w.quotient + 1
    else w.quotient + w.quotient % 2
  if q < mantissaBound then settled q w.scale else settled (divHalfEven q 10) (w.scale - 1)

/-- Give up the last place of a division that went one place too far; what
remains breaks a tie. -/
def stepBack (w : LongDivision) : Option (Nat × Nat) :=
  let q := w.quotient / 10
  let e := w.quotient % 10
  let up := 5 < e ∨ e = 5 ∧ (w.remainder ≠ 0 ∨ q % 2 = 1)
  settled (if up then q + 1 else q) (w.scale - 1)

/-- **The digits of a quotient**, with their scale and whether any had to be
brought down behind the whole quotient. The fuel bounds the number of steps;
the scale rises with each of them and never exceeds 28. -/
def digits (divisor : Nat) : Nat → Bool → LongDivision → Option (Bool × Nat × Nat)
  | 0, _, _ => none
  | fuel + 1, inexact, w =>
    if w.remainder = 0 then
      if 0 ≤ w.scale then some (inexact, w.quotient, w.scale.toNat)
      else
        let x := min 9 (-w.scale).toNat
        if w.quotient * tens x < mantissaBound then
          digits divisor fuel inexact (w.bringDown divisor x)
        else none
    else
      let x := roomFor w.quotient (min 9 (28 - w.scale).toNat)
      if x < 9 ∧ x + w.scale < 0 then none
      else if x = 0 then (w.closed divisor).map (true, ·)
      else
        let next := w.bringDown divisor x
        if next.quotient < mantissaBound then digits divisor fuel true next
        else next.stepBack.map (true, ·)

end LongDivision

/-- Take `k` zeros off the end, if there are so many and they stand behind the
point. -/
def dropZeros (k : Nat) : Nat × Nat → Nat × Nat
  | (q, s) => if k ≤ s ∧ q % tens k = 0 then (q / tens k, s - k) else (q, s)

/-- Take eight zeros off as often as that works, `n` times at most; only a
multiple of `2^32` is tried. -/
def dropEights : Nat → Nat × Nat → Nat × Nat
  | 0, p => p
  | n + 1, (q, s) =>
    if q % 0x100000000 = 0 ∧ 8 ≤ s ∧ q % tens 8 = 0 then dropEights n (q / tens 8, s - 8)
    else (q, s)

/-- **The zeros a quotient sheds**: eights, then once four, two and one. -/
def trimmed (p : Nat × Nat) : Nat × Nat :=
  dropZeros 1 (dropZeros 2 (dropZeros 4 (dropEights 3 p)))

/-- More steps than any division takes: the scale starts at -28 or above,
rises with each and ends at 28 or below. -/
def divisionSteps : Nat := 58

/-- **The quotient**, if there is one and it is in range. -/
def div? (a b : Decimal) : Option Decimal :=
  if b.mantissa = 0 then none
  else if a.mantissa = 0 then some zero
  else
    let start : LongDivision :=
      ⟨a.mantissa / b.mantissa, a.mantissa % b.mantissa, (a.scale : Int) - b.scale⟩
    match LongDivision.digits b.mantissa divisionSteps false start with
    | none => none
    | some (inexact, found) =>
      let (q, s) := if inexact then trimmed found else found
      ofParts? ((a.negative != b.negative) && q != 0) q s

/-- There is no quotient by zero. -/
theorem div?_of_right_zero {a b : Decimal} (h : b.mantissa = 0) : div? a b = none := by
  rw [div?, if_pos h]

end Decimal

end StakeAccounting

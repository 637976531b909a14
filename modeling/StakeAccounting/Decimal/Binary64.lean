import StakeAccounting.Decimal.Text

/-!
# Numbers read as binary fractions

A document may hold a number with a fraction or an exponent outside quotes.
Readers of such documents keep it as a **binary64** number, one of the form
`m · 2^q` with `m < 2^53`, so the decimal it stands for is not the one that was
written but the one with the **fewest digits** that reads back as the same
binary64 number. For up to 15 digits the two agree where the reader takes the
nearest number, as `Numeral.nearest` does. A reader may also come to its number
by rounded steps; `timesTens?` and `overTens?` are such steps, a multiplication
and a division by a power of ten.

`Binary64.ofFraction?` finds the nearest number, in exact whole-number
arithmetic, a half going to the even neighbour. `Binary64.shortest` tries 1, 2, …
17 digits: on each decimal grid it looks at the two grid points around the number
and takes the nearer of those that read back, the greater of two equally near.
`Binary64.toDecimal?` writes the digits out without an exponent and reads them as
a decimal in plain form.
-/

namespace StakeAccounting

/-- **A number as it is written**: `± digits · 10^exponent`. -/
structure Numeral where
  /-- Whether a minus sign stands in front. -/
  negative : Bool
  /-- All digits, read as one whole number. -/
  digits : Nat
  /-- The power of ten. -/
  exponent : Int
deriving DecidableEq

/-- A positive finite binary64 number or zero, `mantissa · 2^exponent`. -/
structure Binary64 where
  /-- The binary digits, at most 53. -/
  mantissa : Nat
  /-- The power of two, at least -1074. -/
  exponent : Int
deriving DecidableEq

/-- The whole numbers `(n · b^e, 1)` or `(n, b^-e)`: the fraction `n · b^e`. -/
def scaledFraction (n b : Nat) (e : Int) : Nat × Nat :=
  if 0 ≤ e then (n * b.pow e.toNat, 1) else (n, b.pow (-e).toNat)

/-- The fraction `num / den` in units of `2^q`. -/
def inUnits (num den : Nat) (q : Int) : Nat × Nat :=
  if 0 ≤ q then (num, den * Nat.pow 2 q.toNat) else (num * Nat.pow 2 (-q).toNat, den)

namespace Binary64

/-- The exponent of the greatest finite power of ten. -/
def topTens : Nat := 308

/-- **The binary64 number nearest to `num / den`**; none where that is infinite.
A half goes to the even neighbour. -/
def ofFraction? (num den : Nat) : Option Binary64 :=
  let rough := max (-1074) ((Nat.log2 num : Int) - Nat.log2 den - 53)
  let (n, d) := inUnits num den rough
  let q := if 0x20000000000000 ≤ n / d then rough + 1 else rough
  let (n, d) := inUnits num den q
  let m := divHalfEven n d
  let x : Binary64 := if m < 0x20000000000000 then ⟨m, q⟩ else ⟨0x10000000000000, q + 1⟩
  if 971 < x.exponent then none else some x

/-- The product of two numbers, rounded once. -/
def times? (x y : Binary64) : Option Binary64 :=
  let (num, den) := scaledFraction (x.mantissa * y.mantissa) 2 (x.exponent + y.exponent)
  ofFraction? num den

/-- The quotient of two numbers, rounded once. -/
def over? (x y : Binary64) : Option Binary64 :=
  let (num, den) := scaledFraction x.mantissa 2 (x.exponent - y.exponent)
  ofFraction? num (den * y.mantissa)

/-- **Multiply by `10^k`**: by the number nearest to that power, which has to be
finite. A zero stays zero. -/
def timesTens? (x : Binary64) (k : Nat) : Option Binary64 :=
  if x.mantissa = 0 then some x
  else if k ≤ topTens then (ofFraction? (tens k) 1).bind x.times?
  else none

/-- **Divide by `10^k`**: by the number nearest to that power where it is finite,
and else first by the greatest such number, and by what is left of the power
then. -/
def overTens? (x : Binary64) (k : Nat) : Option Binary64 :=
  if x.mantissa = 0 then some x
  else if k ≤ topTens then (ofFraction? (tens k) 1).bind x.over?
  else
    ((ofFraction? (tens topTens) 1).bind x.over?).bind (overTens? · (k - topTens))
termination_by k
decreasing_by unfold topTens at *; omega

end Binary64

/-- **The nearest binary64 number** to the numeral's digits, the sign aside;
none where that is infinite. Numerals beyond `10^400` and below `10^-400` are
settled by their size. -/
def Numeral.nearest (x : Numeral) : Option Binary64 :=
  let size := (Nat.toDigits 10 x.digits).length + x.exponent
  if x.digits = 0 ∨ size < -400 then some ⟨0, 0⟩
  else if 400 < size then none
  else
    let (num, den) := scaledFraction x.digits 10 x.exponent
    Binary64.ofFraction? num den

namespace Binary64

/-- Whether `n / d` lies where numbers read back as `x`: between the midpoints
to its two neighbours, which belong to it where the mantissa is even. The
neighbour below a power of two is only half as far. -/
def ReadsBack (x : Binary64) (n d : Nat) : Prop :=
  let (num, den) := scaledFraction 1 2 (x.exponent - 2)
  let below := if x.mantissa = 0x10000000000000 ∧ -1074 < x.exponent then 1 else 2
  let low := (4 * x.mantissa - below) * num * d
  let high := (4 * x.mantissa + 2) * num * d
  if x.mantissa % 2 = 0 then low ≤ n * den ∧ n * den ≤ high
  else low < n * den ∧ n * den < high

instance (x : Binary64) (n d : Nat) : Decidable (x.ReadsBack n d) := by
  unfold ReadsBack
  dsimp only
  split <;> exact inferInstance

/-- **The grid point of `10^p` nearest to `x` that reads back as `x`**, if one
of the two around `x` does; of two equally near the greater is taken. -/
def onGrid (x : Binary64) (p : Int) : Option Nat :=
  let (num, den) := scaledFraction x.mantissa 2 x.exponent
  let (up, down) := scaledFraction 1 10 p
  let n := num * down
  let d := den * up
  let lower := n / d
  let candidates :=
    if 2 * (n % d) < d then [lower, lower + 1] else [lower + 1, lower]
  candidates.find? fun c => c ≠ 0 ∧ x.ReadsBack (c * up) down

/-- **The fewest digits that read back as `x`**, with their power of ten;
17 are always enough. -/
def shortest (x : Binary64) : Nat × Int :=
  if x.mantissa = 0 then (0, 0)
  else
    let (num, den) := scaledFraction x.mantissa 2 x.exponent
    let top : Int :=
      if den ≤ num then (Nat.toDigits 10 (num / den)).length
      else 1 - (Nat.toDigits 10 (den / num)).length
    ((List.range 19).findSome? fun (k : Nat) =>
      (x.onGrid (top - k)).map fun c => (c, top - (k : Int))).getD (0, 0)

end Binary64

namespace Decimal

/-- The digits of `n · 10^p`, written without an exponent. -/
def positional (n : Nat) (p : Int) : List Char :=
  let digits := Nat.toDigits 10 n
  if 0 ≤ p then digits ++ List.replicate p.toNat '0'
  else
    let places := (-p).toNat
    let padded := List.replicate (places + 1 - digits.length) '0' ++ digits
    padded.take (padded.length - places) ++ '.' :: padded.drop (padded.length - places)

end Decimal

namespace Binary64

/-- **The decimal an unquoted number stands for**, given its sign: the number in
the fewest digits, read in plain form. -/
def toDecimal? (negative : Bool) (x : Binary64) : Option Decimal :=
  let (n, p) := x.shortest
  Decimal.ofPlain? ((if negative then ['-'] else []) ++ Decimal.positional n p)

end Binary64

end StakeAccounting

import StakeAccounting.Document

/-!
# Numbers of JSON

A number without a fraction and without an exponent is **whole** if it has 64
bits, with a sign or without. A zero with a minus sign is not, and neither is any
other number: these are kept as binary fractions.

Such a fraction is *computed* and not chosen as the nearest one. Its digits are
collected into a word of 64 bits until no more of them fit; the word becomes a
binary64 number, and that is multiplied or divided by a power of ten. Each step
is rounded. Where the word has no more than 53 bits and the power is at most
`10^22`, only one step can lose digits, and the result is the nearest number;
elsewhere it may be a neighbour of it: `6e27` stands for `6000000000000001` and
twelve zeros.
-/

namespace StakeAccounting

namespace Json

/-! ## Parts of a number -/

/-- The decimal digits in front, and what follows them. -/
def splitDigits (cs : List Char) : List Nat × List Char :=
  ((cs.takeWhile Char.isDigit).map fun c => c.toNat - '0'.toNat, cs.dropWhile Char.isDigit)

/-- At least one decimal digit in front, and what follows. -/
def someDigits? (cs : List Char) : Option (List Nat × List Char) :=
  let (digits, rest) := splitDigits cs
  if digits.isEmpty then none else some (digits, rest)

/-- The digits in front of the point: a zero stands alone. -/
def leading? (cs : List Char) : Option (List Nat × List Char) :=
  match someDigits? cs with
  | some (0 :: _ :: _, _) => none
  | parsed => parsed

/-- The digits behind the point, if there is one, and what follows. -/
def places? : List Char → Option (Option (List Nat) × List Char)
  | '.' :: cs => (someDigits? cs).map fun (digits, rest) => (some digits, rest)
  | cs => some (none, cs)

/-- The number that digits spell. -/
def ofDigits (digits : List Nat) : Nat := digits.foldl (10 * · + ·) 0

/-- The exponent behind its mark, if there is one, and what follows. -/
def shift? : List Char → Option (Option Int × List Char)
  | [] => some (none, [])
  | mark :: cs =>
    if mark = 'e' ∨ mark = 'E' then
      let (negative, unsigned) := Decimal.splitSign cs
      (someDigits? unsigned).map fun (digits, rest) =>
        (some (if negative then -(ofDigits digits : Int) else ofDigits digits), rest)
    else some (none, mark :: cs)

/-! ## Values -/

/-- **Collect digits** behind a number for as long as it keeps to 64 bits. What
no longer fits is left. -/
def collect (n : Nat) : List Nat → Nat × List Nat
  | [] => (n, [])
  | d :: ds =>
    if 10 * n + d < 0x10000000000000000 then collect (10 * n + d) ds else (n, d :: ds)

/-- **The word of a number's digits**, and the power of ten that goes with it: a
digit left in front of the point counts for the power, one left behind it is
dropped. -/
def word (whole places : List Nat) : Nat × Int :=
  let (n, left) := collect 0 whole
  let (m, dropped) := collect n places
  (m, (left.length : Int) - (places.length - dropped.length : Nat))

/-- **The binary fraction `n · 10^e`**, computed from the word `n` by rounded
steps; none where it is infinite. -/
def computed? (n : Nat) (e : Int) : Option Binary64 :=
  (Binary64.ofFraction? n 1).bind fun x =>
    if 0 ≤ e then x.timesTens? e.toNat else x.overTens? (-e).toNat

/-- The whole number of a sign and a magnitude, if it has 64 bits. -/
def whole? (negative : Bool) (n : Nat) : Option Document :=
  if negative then
    if 0 < n ∧ n ≤ 0x8000000000000000 then some (.whole (-(n : Int))) else none
  else if n < 0x10000000000000000 then some (.whole n)
  else none

/-- A number as a binary fraction. -/
def fraction? (negative : Bool) (whole places : List Nat) (shift : Int) : Option Document :=
  let (n, e) := word whole places
  (computed? n (e + shift)).map (.fraction negative)

/-! ## Reading -/

/-- **The number in front**, and what follows it. -/
def number? (cs : List Char) : Option (Document × List Char) := do
  let (negative, unsigned) := match cs with
    | '-' :: cs => (true, cs)
    | cs => (false, cs)
  let (digits, rest) ← leading? unsigned
  let (places, rest) ← places? rest
  let (shift, rest) ← shift? rest
  let plain := if places.isNone ∧ shift.isNone then whole? negative (ofDigits digits) else none
  let value ← plain <|> fraction? negative digits (places.getD []) (shift.getD 0)
  return (value, rest)

end Json

end StakeAccounting

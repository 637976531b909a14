import StakeAccounting.Decimal.Rounding

/-!
# Decimals as text

A decimal is written plainly: a minus sign if it carries one – a zero may –,
at least one digit before the point, and exactly `scale` digits behind it.

Two forms are read. The **plain form** is an optional sign, digits with at most
one point among them, and underscores anywhere after the first digit. The digits
behind the point make the scale, trailing zeros included; digits that no longer
fit behind the point are cut off, the first of them rounding the last that does.
Underscores are read past, but one: right behind the 28th place of a **short**
mantissa, one of hardly 64 bits, an underscore stands where the rounding digit is
looked for, and then nothing is rounded.
The **scientific form** is a plain form, an `e`, and a whole exponent, and
shifts the point of the plain form. A zero read in plain form carries no sign.

`Decimal.toText` and `Decimal.ofText?` are the two directions on strings; the
work is done on lists of characters.
-/

namespace StakeAccounting

namespace Decimal

/-! ## Writing -/

/-- The digits of the mantissa, with zeros in front so that one stands before
the point. -/
def paddedDigits (a : Decimal) : List Char :=
  let digits := Nat.toDigits 10 a.mantissa
  List.replicate (a.scale + 1 - digits.length) '0' ++ digits

/-- The characters of a decimal. -/
def toChars (a : Decimal) : List Char :=
  let digits := a.paddedDigits
  let whole := digits.take (digits.length - a.scale)
  let fraction := digits.drop (digits.length - a.scale)
  (if a.negative then ['-'] else []) ++ whole ++
    (if a.scale = 0 then [] else '.' :: fraction)

/-- **The text of a decimal.** -/
def toText (a : Decimal) : String := String.ofList a.toChars

/-! ## Reading -/

/-- The value of a decimal digit. -/
def digitValue? (c : Char) : Option Nat :=
  if '0' ≤ c ∧ c ≤ '9' then some (c.toNat - '0'.toNat) else none

/-- Whether `c` may stand among digits that are read past. -/
def isDigitOrGap (c : Char) : Bool := (digitValue? c).isSome || c == '_'

/-- **The number of a run of digits**, if there is at least one and nothing
else. -/
def wholeNumber? (cs : List Char) : Option Nat :=
  if cs.isEmpty then none
  else cs.foldl (fun acc c => acc.bind fun n => (digitValue? c).map (10 * n + ·)) (some 0)

/-- **Cut off** at a digit that no longer fits behind the point: it rounds
the digits read so far, half up, and if that fills the mantissa one place more
is given up. -/
def cutOff (mantissa scale digit : Nat) : Option (Nat × Nat) :=
  let m := if 5 ≤ digit then mantissa + 1 else mantissa
  if m < mantissaBound then some (m, scale)
  else if scale = 0 then none
  else some ((m + 4) / 10, scale - 1)

/-- The bound of short mantissas: those that a 64-bit word takes, with a margin
below its largest tenth. -/
def shortBound : Nat := 18446744073709549060

/-- **The unsigned plain form**: the mantissa and the scale of the digits,
after those already read. `point` and `digit` say whether a point and a digit
were read. -/
def readDigits (mantissa scale : Nat) (point digit : Bool) : List Char → Option (Nat × Nat)
  | [] => if digit then some (mantissa, scale) else none
  | c :: cs =>
    if c = '_' then
      if !digit then none
      else if point ∧ scale = 28 ∧ mantissa < shortBound then
        if cs.all isDigitOrGap then some (mantissa, scale) else none
      else readDigits mantissa scale point digit cs
    else if c = '.' then
      if point then none else readDigits mantissa scale true digit cs
    else
      match digitValue? c with
      | none => none
      | some d =>
        if 10 * mantissa + d < mantissaBound ∧ ¬(point ∧ scale = 28) then
          readDigits (10 * mantissa + d) (if point then scale + 1 else scale) point true cs
        else if point && cs.all isDigitOrGap then cutOff mantissa scale d
        else none

/-- A sign in front, if there is one, and the rest. -/
def splitSign : List Char → Bool × List Char
  | '+' :: cs => (false, cs)
  | '-' :: cs => (true, cs)
  | cs => (false, cs)

/-- **The plain form.** A zero carries no sign. -/
def ofPlain? (cs : List Char) : Option Decimal :=
  let (negative, digits) := splitSign cs
  (readDigits 0 0 false false digits).bind fun (m, s) => ofParts? (negative && m != 0) m s

/-- The exponent of the scientific form: below `2^32`, and a plus sign may
stand in front. -/
def exponent? (cs : List Char) : Option Nat :=
  let digits := match cs with
    | '+' :: rest => rest
    | rest => rest
  (wholeNumber? digits).filter (· < 0x100000000)

/-- Shift the point `e` places to the left. No more than 28 places stay: what
is beyond them is rounded first, half away from zero. -/
def shiftLeft? (a : Decimal) (e : Nat) : Option Decimal :=
  if 28 < e then none
  else if a.scale + e ≤ 28 then ofParts? a.negative a.mantissa (a.scale + e)
  else
    let unit := tens (a.scale + e - 28)
    ofParts? a.negative ((2 * a.mantissa + unit) / (2 * unit)) 28

/-- Shift the point `e` places to the right. A shift past the last digit makes
a whole number. -/
def shiftRight? (a : Decimal) (e : Nat) : Option Decimal :=
  if e ≤ a.scale then ofParts? a.negative a.mantissa (a.scale - e)
  else if 28 < e then none
  else ofParts? (a.negative && a.mantissa != 0) (a.mantissa * tens (e - a.scale)) 0

/-- **The scientific form**: everything before the first `e` is a plain form,
everything behind it the exponent. -/
def ofScientific? (cs : List Char) : Option Decimal :=
  let isMark := fun c : Char => c == 'e' || c == 'E'
  match cs.dropWhile (!isMark ·) with
  | [] => none
  | _ :: shift =>
    (ofPlain? (cs.takeWhile (!isMark ·))).bind fun base =>
      match shift with
      | '-' :: e => (exponent? e).bind base.shiftLeft?
      | e => (exponent? e).bind base.shiftRight?

/-- The decimal that the characters spell. -/
def ofChars? (cs : List Char) : Option Decimal := ofPlain? cs <|> ofScientific? cs

/-- **The decimal that a text spells**, in plain or in scientific form. -/
def ofText? (s : String) : Option Decimal := ofChars? s.toList

end Decimal

end StakeAccounting

import StakeAccounting.Decimal.Binary64
import StakeAccounting.Document
import StakeAccounting.Toml.Text

/-!
# Numbers, truth values and moments of TOML

A value without quotes and brackets is a **word**: the characters up to the first
one that can be in none of them. Only a date goes on behind a blank, if a time of
day follows it. The word as a whole has to be a truth value, a moment or a number.

Numbers are whole or have a fraction, an exponent or both. Digits may be grouped
by underscores, one between two digits, and a number does not begin with a zero
that could be left out. Whole numbers of base sixteen, eight and two carry a mark
and no sign. A whole number has to fit into 64 bits with a sign; a number with a
fraction must not be greater than the greatest binary fraction, but may be less
than the least one.
-/

namespace StakeAccounting

namespace Toml

/-! ## Digits -/

/-- The value of a digit to a base of at most sixteen. -/
def digitIn? (base : Nat) (c : Char) : Option Nat := (hexDigit? c).filter (· < base)

/-- **The digits of a run**, in which an underscore may stand between two of
them. -/
def grouped? (base : Nat) : List Char → Option (List Nat)
  | [] => none
  | [c] => (digitIn? base c).map fun d => [d]
  | c :: '_' :: rest => do return (← digitIn? base c) :: (← grouped? base rest)
  | c :: rest => do return (← digitIn? base c) :: (← grouped? base rest)

/-- The number that digits spell. -/
def ofDigits (base : Nat) (digits : List Nat) : Nat := digits.foldl (base * · + ·) 0

/-- Whether a character may stand in a run of decimal digits. -/
def isDigitOrGap (c : Char) : Bool := c.isDigit || c == '_'

/-- The decimal digits in front of the point: a zero stands alone. -/
def leading? : List Char → Option (List Nat)
  | '0' :: _ :: _ => none
  | cs => grouped? 10 cs

/-! ## Numbers -/

/-- The whole number of a sign and a magnitude, if it has 64 bits. -/
def signed? (negative : Bool) (n : Nat) : Option Document :=
  if n < 0x8000000000000000 ∨ negative ∧ n = 0x8000000000000000 then
    some (.whole (if negative then -(n : Int) else n))
  else none

/-- **A whole number.** -/
def whole? : List Char → Option Document
  | '0' :: 'x' :: cs => (grouped? 16 cs).bind fun ds => signed? false (ofDigits 16 ds)
  | '0' :: 'o' :: cs => (grouped? 8 cs).bind fun ds => signed? false (ofDigits 8 ds)
  | '0' :: 'b' :: cs => (grouped? 2 cs).bind fun ds => signed? false (ofDigits 2 ds)
  | cs =>
    let (negative, digits) := Decimal.splitSign cs
    (leading? digits).bind fun ds => signed? negative (ofDigits 10 ds)

/-- The digits behind a point, and what follows them; none without a point. -/
def places? : List Char → Option (List Nat × List Char)
  | '.' :: cs => (grouped? 10 (cs.takeWhile isDigitOrGap)).map fun ds =>
      (ds, cs.dropWhile isDigitOrGap)
  | cs => some ([], cs)

/-- The exponent behind its mark, up to the end; zero without a mark. -/
def shift? : List Char → Option Int
  | [] => some 0
  | mark :: cs =>
    if mark = 'e' ∨ mark = 'E' then
      let (negative, digits) := Decimal.splitSign cs
      (grouped? 10 digits).map fun ds =>
        if negative then -(ofDigits 10 ds : Int) else ofDigits 10 ds
    else none

/-- A number as the nearest binary fraction: below all of them it is none, and
above there is no such number. -/
def finite? (x : Numeral) : Option Document :=
  match x.nearest with
  | some b => some (.fraction x.negative b)
  | none => if x.negative then some .notFinite else none

/-- **A number with a fraction, an exponent or both.** -/
def fraction? (cs : List Char) : Option Document := do
  let (negative, unsigned) := Decimal.splitSign cs
  let front := unsigned.takeWhile isDigitOrGap
  let behind := unsigned.dropWhile isDigitOrGap
  if behind.isEmpty then none
  else
    let whole ← leading? front
    let (places, behind) ← places? behind
    let exponent ← shift? behind
    finite? ⟨negative, ofDigits 10 (whole ++ places), exponent - places.length⟩

/-- A number that is none or infinite, spelt out. -/
def isNotFinite (cs : List Char) : Bool :=
  let (_, name) := Decimal.splitSign cs
  name == ['i', 'n', 'f'] || name == ['n', 'a', 'n']

/-! ## Moments -/

/-- The number of two digits. -/
def pair? (a b : Char) : Option Nat := do return 10 * (← digitIn? 10 a) + (← digitIn? 10 b)

/-- The days of a month. -/
def daysOf (year month : Nat) : Nat :=
  if month = 2 then
    if year % 4 = 0 ∧ (year % 100 ≠ 0 ∨ year % 400 = 0) then 29 else 28
  else if month = 4 ∨ month = 6 ∨ month = 9 ∨ month = 11 then 30
  else 31

/-- **What follows a date**, if there is one in front and the calendar has it. -/
def afterDate? : List Char → Option (List Char)
  | a :: b :: c :: d :: '-' :: m :: n :: '-' :: x :: y :: rest => do
    let year := 100 * (← pair? a b) + (← pair? c d)
    let month ← pair? m n
    let day ← pair? x y
    if 1 ≤ month ∧ month ≤ 12 ∧ 1 ≤ day ∧ day ≤ daysOf year month then some rest else none
  | _ => none

/-- What follows the fraction of a second, if there is one. -/
def afterSecond? : List Char → Option (List Char)
  | '.' :: cs => if (cs.takeWhile Char.isDigit).isEmpty then none
      else some (cs.dropWhile Char.isDigit)
  | cs => some cs

/-- **What follows a time of day**, if there is one in front. A minute may have
a second more than sixty. -/
def afterTime? : List Char → Option (List Char)
  | a :: b :: ':' :: c :: d :: ':' :: e :: f :: rest => do
    let hour ← pair? a b
    let minute ← pair? c d
    let second ← pair? e f
    if hour ≤ 23 ∧ minute ≤ 59 ∧ second ≤ 60 then afterSecond? rest else none
  | _ => none

/-- Whether the characters are nothing, or the distance from universal time. -/
def isZone : List Char → Bool
  | [] => true
  | [c] => c == 'Z' || c == 'z'
  | [sign, a, b, ':', c, d] =>
    (sign == '+' || sign == '-') && (pair? a b).any (· ≤ 23) && (pair? c d).any (· ≤ 59)
  | _ => false

/-- **Whether the word is a date, a time of day or both.** Only with a date there
may be a zone. -/
def isMoment (cs : List Char) : Bool :=
  match afterDate? cs with
  | some [] => true
  | some (mark :: time) =>
    (mark == 'T' || mark == 't' || mark == ' ') && (afterTime? time).any isZone
  | none => (afterTime? cs).any List.isEmpty

/-! ## Words -/

/-- Whether a character may stand in a word. -/
def isWordChar (c : Char) : Bool := c.isAlphanum || "_+-.:".toList.contains c

/-- **The word in front**, and what follows it. -/
def splitWord (cs : List Char) : List Char × List Char :=
  let word := cs.takeWhile isWordChar
  match afterDate? word, cs.dropWhile isWordChar with
  | some [], ' ' :: a :: b :: ':' :: rest =>
    if a.isDigit && b.isDigit then
      (word ++ ' ' :: a :: b :: ':' :: rest.takeWhile isWordChar, rest.dropWhile isWordChar)
    else (word, ' ' :: a :: b :: ':' :: rest)
  | _, rest => (word, rest)

/-- The value of a word. -/
def ofWord? (cs : List Char) : Option Document :=
  if cs = ['t', 'r', 'u', 'e'] then some (.bool true)
  else if cs = ['f', 'a', 'l', 's', 'e'] then some (.bool false)
  else if isNotFinite cs then some .notFinite
  else if isMoment cs then some .moment
  else whole? cs <|> fraction? cs

/-- **A value without quotes and brackets.** -/
def word? (cs : List Char) : Parsed Document :=
  let (word, rest) := splitWord cs
  (ofWord? word).map fun d => (d, rest)

end Toml

end StakeAccounting

import StakeAccounting.Decimal.Basic

/-!
# Rounding

Two kinds of rounding occur. **Half to even** is what the arithmetic does when
an exact result has more digits than a decimal holds: `Nat.divHalfEven` rounds
one quotient, and `Decimal.fit?` drops just as many decimal places as make the
result fit, always from the exact digits, so no result is rounded twice.
**Directed** rounding to a fixed number of places is a decision of the domain –
a rate is rounded up and a capacity down – and `roundUp` and `roundDown` do it.
-/

namespace StakeAccounting

/-- The quotient `n / d` rounded to the nearest whole number, a half going to
the even neighbour. -/
def divHalfEven (n d : Nat) : Nat :=
  if 2 * (n % d) < d then n / d
  else if d < 2 * (n % d) then n / d + 1
  else n / d + n / d % 2

/-- A quotient without remainder is not rounded. -/
theorem divHalfEven_mul (q d : Nat) (hd : 0 < d) : divHalfEven (q * d) d = q := by
  unfold divHalfEven
  rw [Nat.mul_mod_left, Nat.mul_div_cancel q hd, if_pos (by omega)]

@[simp] theorem divHalfEven_one (n : Nat) : divHalfEven n 1 = n := by
  have h := divHalfEven_mul n 1 (by decide)
  rwa [Nat.mul_one] at h

namespace Decimal

/-- **The decimal nearest an exact result** of mantissa `m` and scale `s`,
neither of them bounded: as few decimal places as possible are dropped, at
least so many that 28 stay, and what is dropped is rounded half to even. There
is none if the whole part alone is too large. -/
def fit? (negative : Bool) (m s : Nat) : Option Decimal :=
  (List.range' (s - 28) (s + 1 - (s - 28))).findSome? fun k =>
    ofParts? negative (divHalfEven m (tens k)) (s - k)

/-- An exact result that is a decimal as it stands is not rounded. -/
theorem fit?_of_fits (negative : Bool) {m s : Nat} (hm : m < mantissaBound) (hs : s ≤ 28) :
    fit? negative m s = some ⟨negative, m, s, hm, hs⟩ := by
  have h0 : s - 28 = 0 := by omega
  have hfirst : ofParts? negative (divHalfEven m (tens 0)) (s - 0) =
      some ⟨negative, m, s, hm, hs⟩ := by
    rw [tens_zero, divHalfEven_one, Nat.sub_zero, ofParts?, dif_pos ⟨hm, hs⟩]
  rw [fit?, h0, Nat.sub_zero, List.range'_succ, List.findSome?_cons, hfirst]

/-! ## Directed rounding -/

/-- Cut to `places` decimal places; `outward` says whether what is cut off
moves the number away from zero. A number with fewer places stays as it is. -/
def cutTo (outward : Bool) (places : Nat) (a : Decimal) : Decimal :=
  if h : a.scale ≤ places then a
  else
    let unit := tens (a.scale - places)
    let q := a.mantissa / unit + if outward && a.mantissa % unit != 0 then 1 else 0
    { negative := a.negative && (a.mantissa == 0 || q != 0)
      mantissa := q
      scale := places
      mantissa_lt := by
        have hu : 10 ≤ unit := ten_le_tens (by omega)
        have hq : a.mantissa / unit ≤ a.mantissa / 10 := Nat.div_le_div_left hu (by decide)
        have := a.mantissa_lt
        show a.mantissa / unit + _ < mantissaBound
        unfold mantissaBound at *
        split <;> omega
      scale_le := by have := a.scale_le; omega }

/-- **Rounding up**, toward `+∞`, to at most `places` decimal places. -/
def roundUp (places : Nat) (a : Decimal) : Decimal := a.cutTo (!a.negative) places

/-- **Rounding down**, toward `-∞`, to at most `places` decimal places. -/
def roundDown (places : Nat) (a : Decimal) : Decimal := a.cutTo a.negative places

/-- A number that has no more than the given places is not rounded. -/
theorem cutTo_of_scale_le {outward : Bool} {places : Nat} {a : Decimal}
    (h : a.scale ≤ places) : a.cutTo outward places = a := by
  unfold cutTo
  rw [dif_pos h]

end Decimal

end StakeAccounting

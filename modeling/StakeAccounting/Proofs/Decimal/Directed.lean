import StakeAccounting.Proofs.Decimal.Grid

/-!
# Directed rounding goes to the grid

Rounding up or down to some decimal places works on digits, and leaves a number with
fewer places as it is written. What it is worth is simpler: the multiple of the unit
next above or below (`quanta_roundUp`, `quanta_roundDown`), whatever the sign and the
scale. So it lands on the grid of these places, and it keeps the order.
-/

namespace StakeAccounting

namespace Decimal

variable {places : Nat} {a b : Decimal}

/-- What a cut is worth: so many units, one more where it goes outward and something is
cut off. -/
theorem quanta_cutTo (outward : Bool) (h : places < a.scale) :
    (a.cutTo outward places).quanta =
      signed a.negative (a.mantissa / tens (a.scale - places) +
        if outward && a.mantissa % tens (a.scale - places) != 0 then 1 else 0) *
          tens (28 - places) := by
  unfold cutTo
  rw [dif_neg (by omega), quanta, coefficient_eq_signed]
  dsimp only
  congr 1
  generalize a.mantissa / tens (a.scale - places) +
    (if outward && a.mantissa % tens (a.scale - places) != 0 then 1 else 0) = q
  -- a sign is lost only where nothing is left that could carry it
  by_cases hq : q = 0
  · rw [hq]
    unfold signed
    split <;> split <;> rfl
  · rw [show (q != 0) = true by simpa using hq, Bool.or_true, Bool.and_true]

/-- Toward `-∞` a negative number has as many units as its digits, and one more where
something is left. -/
theorem neg_natCast_ediv (m : Nat) {unit : Nat} (hu : 0 < unit) :
    -(m : Int) / unit = -((m / unit + if m % unit != 0 then 1 else 0 : Nat) : Int) := by
  have hsplit := Nat.div_add_mod m unit
  have hrest := Nat.mod_lt m hu
  generalize m / unit = q at hsplit
  generalize m % unit = r at hsplit hrest
  have hm : (m : Int) = unit * q + r := by exact_mod_cast hsplit.symm
  refine (Int.ediv_eq_iff_of_pos (by omega)).mpr ?_
  by_cases hr : r = 0
  · have hmul : -((q : Int)) * unit = -(unit * q) := by ring
    rw [hm, hr, if_neg (by decide), Nat.add_zero, hmul]
    omega
  · have hmul : -((q + 1 : Nat) : Int) * unit = -(unit * q) - unit := by
      push_cast
      ring
    rw [hm, if_pos (by simpa using hr), hmul]
    omega

/-- The units of a number, at so many places. -/
theorem quanta_ediv (h : places ≤ a.scale) :
    a.quanta / tens (28 - places) = a.coefficient / tens (a.scale - places) := by
  have hs := a.scale_le
  rw [quanta, show 28 - places = a.scale - places + (28 - a.scale) by omega, tens_add,
    Int.natCast_mul, Int.mul_ediv_mul_of_pos_left _ _ (Int.natCast_pos.mpr (tens_pos _))]

/-- A number with no more places is whole in their units. -/
theorem dvd_quanta_of_scale_le (h : a.scale ≤ places) : (tens (28 - places) : Int) ∣ a.quanta := by
  refine Dvd.dvd.mul_left ?_ _
  have hs := a.scale_le
  rw [show 28 - a.scale = 28 - places + (min 28 places - a.scale) by omega, tens_add,
    Int.natCast_mul]
  exact Int.dvd_mul_right _ _

theorem signed_not (negative : Bool) (m : Nat) : signed (!negative) m = -signed negative m := by
  cases negative
  · rfl
  · exact (Int.neg_neg _).symm

/-- **Rounding down** goes to the multiple of the unit next below. -/
theorem quanta_roundDown (places : Nat) (a : Decimal) :
    (a.roundDown places).quanta = a.quanta / tens (28 - places) * tens (28 - places) := by
  unfold roundDown
  by_cases h : a.scale ≤ places
  · rw [cutTo_of_scale_le h, Int.ediv_mul_cancel (dvd_quanta_of_scale_le h)]
  · rw [quanta_cutTo a.negative (by omega), quanta_ediv (by omega), coefficient_eq_signed]
    congr 1
    unfold signed
    cases a.negative with
    | false => exact Int.natCast_ediv _ _
    | true =>
      rw [if_pos rfl, if_pos rfl, neg_natCast_ediv _ (tens_pos _), Bool.true_and]

/-- **Rounding up** is rounding the negated number down. -/
theorem quanta_roundUp (places : Nat) (a : Decimal) :
    (a.roundUp places).quanta = -(-a.quanta / tens (28 - places)) * tens (28 - places) := by
  have hdown := quanta_roundDown places (-a)
  rw [quanta_neg] at hdown
  rw [Int.neg_mul, ← hdown, ← quanta_neg]
  unfold roundUp roundDown
  have hscale : (-a).scale = a.scale := rfl
  have hmantissa : (-a).mantissa = a.mantissa := rfl
  have hsign : (-a).negative = !a.negative := rfl
  by_cases h : a.scale ≤ places
  · rw [cutTo_of_scale_le h, cutTo_of_scale_le (a := -a) h, neg_neg]
  · rw [quanta_neg, quanta_cutTo _ (show places < a.scale by omega),
      quanta_cutTo _ (show places < (-a).scale by omega), hscale, hmantissa, hsign, signed_not,
      Int.neg_mul, Int.neg_neg]

/-! ## Where directed rounding goes -/

/-- **Rounding up** leads to nothing less. -/
theorem le_roundUp (places : Nat) (a : Decimal) : a ≤ a.roundUp places := by
  have hbelow := Int.ediv_mul_le (-a.quanta) (b := tens (28 - places))
    (Int.natCast_ne_zero.mpr (Nat.ne_of_gt (tens_pos _)))
  rw [le_def, quanta_roundUp, Int.neg_mul]
  omega

/-- **Rounding down** leads to nothing more. -/
theorem roundDown_le (places : Nat) (a : Decimal) : a.roundDown places ≤ a := by
  rw [le_def, quanta_roundDown]
  exact Int.ediv_mul_le _ (Int.natCast_ne_zero.mpr (Nat.ne_of_gt (tens_pos _)))

/-- On the grid, rounding up leads nowhere. -/
theorem OnGrid.roundUp_same (h : a.OnGrid places) : (a.roundUp places).Same a := by
  rw [same_def, quanta_roundUp, Int.neg_mul, Int.ediv_mul_cancel (Int.dvd_neg.mpr h), Int.neg_neg]

/-- **Rounding down** passes no number of units. -/
theorem mul_le_quanta_roundDown {n : Int} (h : n * tens (28 - places) ≤ a.quanta) :
    n * tens (28 - places) ≤ (a.roundDown places).quanta := by
  have ht : (0 : Int) < tens (28 - places) := Int.natCast_pos.mpr (tens_pos _)
  rw [quanta_roundDown]
  exact Int.mul_le_mul_of_nonneg_right ((Int.le_ediv_iff_mul_le ht).mpr h) (Int.le_of_lt ht)

/-- **Rounding down** does not pass zero. -/
theorem roundDown_nonneg (h : zero ≤ a) : zero ≤ a.roundDown places := by
  rw [le_def, quanta_zero] at h ⊢
  rw [quanta_roundDown]
  exact Int.mul_nonneg (Int.ediv_nonneg h (Int.natCast_nonneg _)) (Int.natCast_nonneg _)

/-! ## What directed rounding keeps -/

theorem onGrid_roundDown (places : Nat) (a : Decimal) : (a.roundDown places).OnGrid places := by
  unfold OnGrid
  rw [quanta_roundDown]
  exact Int.dvd_mul_left _ _

theorem onGrid_roundUp (places : Nat) (a : Decimal) : (a.roundUp places).OnGrid places := by
  unfold OnGrid
  rw [quanta_roundUp]
  exact Int.dvd_mul_left _ _

/-- Rounding up keeps the order. -/
theorem roundUp_le_roundUp (places : Nat) (h : a ≤ b) : a.roundUp places ≤ b.roundUp places := by
  have ht : (0 : Int) < tens (28 - places) := Int.natCast_pos.mpr (tens_pos _)
  rw [le_def] at h ⊢
  rw [quanta_roundUp, quanta_roundUp]
  have := Int.ediv_le_ediv ht (show -b.quanta ≤ -a.quanta by omega)
  exact Int.mul_le_mul_of_nonneg_right (by omega) (Int.le_of_lt ht)

/-- Rounding down keeps the order. -/
theorem roundDown_le_roundDown (places : Nat) (h : a ≤ b) :
    a.roundDown places ≤ b.roundDown places := by
  have ht : (0 : Int) < tens (28 - places) := Int.natCast_pos.mpr (tens_pos _)
  rw [le_def] at h ⊢
  rw [quanta_roundDown, quanta_roundDown]
  exact Int.mul_le_mul_of_nonneg_right (Int.ediv_le_ediv ht h) (Int.le_of_lt ht)

/-- On a grid of fewer places a number is on one of more. -/
theorem OnGrid.mono {p q : Nat} (h : a.OnGrid p) (hpq : p ≤ q) : a.OnGrid q := by
  refine Int.dvd_trans ?_ h
  rw [show 28 - p = 28 - q + (min 28 q - p) by omega, tens_add, Int.natCast_mul]
  exact Int.dvd_mul_right _ _

end Decimal

end StakeAccounting

import StakeAccounting.Proofs.Decimal.Ratio

/-!
# Taking away and putting back

A part that is taken from a number and put back goes through two roundings, and the number
need not come back. It has no digit behind the place that the first rounding keeps, and that
rounding is off by half a unit of the place at most. Off by less, the second rounding finds the
number again. Off by half a unit, it stands on the middle between the number and its neighbour,
and goes to the even one: so a number that is odd in these units is **lost**
(`Decimal.Loses`), and that is the only way to lose one (`plus_neg_same_iff`).
-/

namespace StakeAccounting

/-- **What half to even takes to a number**: a quotient no more than half a unit away from it,
and on the middle an even number only. -/
theorem divHalfEven_eq_iff {n d q : Nat} (hd : 0 < d) :
    divHalfEven n d = q ↔ 2 * ((n : Int) - q * d).natAbs ≤ d ∧
      (2 * ((n : Int) - q * d).natAbs = d → q % 2 = 0) := by
  have hn := Nat.div_add_mod n d
  have hr := Nat.mod_lt n hd
  unfold divHalfEven
  generalize n / d = whole at hn
  generalize n % d = rest at hn hr
  rw [show (q : Int) * d = ((d * q : Nat) : Int) by rw [Nat.mul_comm, Int.natCast_mul]]
  -- the quotient lies between two whole numbers, and `q` is one of them or too far away
  rcases Nat.lt_or_ge q whole with hlow | hge
  · have hfar : d * (q + 1) ≤ d * whole := Nat.mul_le_mul_left d hlow
    rw [Nat.mul_add, Nat.mul_one] at hfar
    split_ifs <;> omega
  · rcases Nat.lt_or_ge (whole + 1) q with hhigh | hle
    · have hfar : d * (whole + 2) ≤ d * q := Nat.mul_le_mul_left d hhigh
      rw [Nat.mul_add] at hfar
      split_ifs <;> omega
    · obtain rfl | rfl : q = whole ∨ q = whole + 1 := by omega
      · split_ifs <;> omega
      · rw [Nat.mul_add, Nat.mul_one]
        split_ifs <;> omega

namespace Decimal

/-! ## Half units -/

variable {a n r s x p w m j : Nat}

/-- **Half a unit that a number is odd in**: twice the distance is a power of ten, of which the
number is an odd multiple. -/
def OddHalf (a : Nat) (distance : Int) : Prop :=
  ∃ k i, 2 * distance.natAbs = tens k ∧ a = (2 * i + 1) * tens k

/-- **The last place that is kept**: the result is half a unit of it away at most, and even
in these units if it is that far; with a further place there would be too many digits. -/
theorem exists_places (h : nearestRatio? n 1 = some r) :
    ∃ p q, r = q * tens p ∧ 2 * ((n : Int) - r).natAbs ≤ tens p ∧
      (2 * ((n : Int) - r).natAbs = tens p → q % 2 = 0) ∧
      ∀ j, j < p → mantissaBound ≤ digitsAt n 1 j := by
  obtain ⟨p, -, rfl, -, hfirst⟩ := nearestRatio?_eq_some h
  have hround := (divHalfEven_eq_iff (q := digitsAt n 1 p) (n := n) (tens_pos p)).mp (by
    rw [digitsAt, Nat.one_mul])
  rw [← Int.natCast_mul] at hround
  exact ⟨p, _, rfl, hround.1, hround.2, hfirst⟩

/-- **A decimal has no digit behind the places** that are kept of what is no greater. -/
theorem le_of_places (hle : n ≤ m * tens w) (hm : m < mantissaBound)
    (hfirst : ∀ j, j < p → mantissaBound ≤ digitsAt n 1 j) : p ≤ w := by
  by_contra hlt
  have hmany := hfirst w (Nat.lt_of_not_le hlt)
  have hfew : digitsAt n 1 w ≤ m := by
    unfold digitsAt
    rw [Nat.one_mul]
    exact divHalfEven_le (tens_pos w) hle
  omega

/-- **What is near a decimal is rounded to it**: no more than half a unit away, of a place that
has to be given up, and not on the middle where the decimal is odd. -/
theorem nearestRatio?_of_near (hm : m < mantissaBound) (hw : w ≤ 28) (hpw : p ≤ w)
    (hfirst : ∀ j, j < p → mantissaBound ≤ digitsAt s 1 j)
    (hnear : 2 * ((s : Int) - (m * tens w : Nat)).natAbs ≤ tens p)
    (hodd : ¬ OddHalf (m * tens w) (s - (m * tens w : Nat))) :
    nearestRatio? s 1 = some (m * tens w) := by
  have hdigits : ∀ k, p ≤ k → k ≤ w → digitsAt s 1 k * tens k = m * tens w := by
    intro k hpk hkw
    have hsplit : m * tens w = m * tens (w - k) * tens k := by
      rw [Nat.mul_assoc, ← tens_add, Nat.sub_add_cancel hkw]
    have hq : divHalfEven s (1 * tens k) = m * tens (w - k) := by
      rw [Nat.one_mul, divHalfEven_eq_iff (tens_pos k), ← Int.natCast_mul, ← hsplit]
      refine ⟨Nat.le_trans hnear (tens_le_tens hpk), fun hhalf => ?_⟩
      by_contra heven
      refine hodd ⟨k, m * tens (w - k) / 2, hhalf, ?_⟩
      rw [show 2 * (m * tens (w - k) / 2) + 1 = m * tens (w - k) by omega, ← hsplit]
    rw [digitsAt, hq, hsplit]
  have hfit : digitsAt s 1 w < mantissaBound := by
    rwa [Nat.eq_of_mul_eq_mul_right (tens_pos w) (hdigits w hpw (Nat.le_refl w))]
  obtain ⟨q, hq⟩ := exists_nearestRatio? hw hfit
  obtain ⟨k, -, rfl, hkfit, hkfirst⟩ := nearestRatio?_eq_some hq
  have hpk : p ≤ k := by
    by_contra hlt
    have := hfirst k (Nat.lt_of_not_le hlt)
    omega
  have hkw : k ≤ w := by
    by_contra hlt
    have := hkfirst w (Nat.lt_of_not_le hlt)
    omega
  rw [hq, hdigits k hpk hkw]

/-- **What is on the middle next to an odd number** is not rounded to it. -/
theorem not_oddHalf_of_nearestRatio? (h : nearestRatio? s 1 = some a) :
    ¬ OddHalf a (s - a) := by
  rintro ⟨k, i, hhalf, hodd⟩
  obtain ⟨p, q, hq, hnear, heven, -⟩ := exists_places h
  have hkp : k ≤ p := by
    by_contra hlt
    have hless : tens (p + 1) ≤ tens k := tens_le_tens (Nat.lt_of_not_le hlt)
    have hpos := tens_pos p
    rw [tens_succ] at hless
    omega
  -- an odd multiple of one power of ten is no multiple of a greater one
  obtain ⟨t, rfl⟩ := Nat.exists_eq_add_of_le hkp
  rw [Nat.add_comm k t, tens_add, ← Nat.mul_assoc] at hq
  have hsame : 2 * i + 1 = q * tens t :=
    Nat.eq_of_mul_eq_mul_right (tens_pos k) (hodd.symm.trans hq)
  cases t with
  | zero =>
    have := heven hhalf
    rw [tens_zero] at hsame
    omega
  | succ t =>
    rw [tens_succ, ← Nat.mul_assoc] at hsame
    omega

/-! ## There and back -/

/-- **What is put back brings at least what was there before**: the number and what is left are
whole in the unit, so no less than a unit less half of it was taken. -/
theorem sub_le_add_of_near {u : Nat} (ha : u ∣ a) (hr : u ∣ r) (hx : x ≤ a)
    (hnear : 2 * (((a - x : Nat) : Int) - r).natAbs ≤ u) : a - x ≤ r + x := by
  obtain ⟨i, rfl⟩ := ha
  obtain ⟨j, rfl⟩ := hr
  rcases Nat.lt_or_ge j i with hlt | hge
  · have hstep : u * (j + 1) ≤ u * i := Nat.mul_le_mul_left u hlt
    rw [Nat.mul_add, Nat.mul_one] at hstep
    omega
  · have : u * i ≤ u * j := Nat.mul_le_mul_left u hge
    omega

/-- **Taking away and putting back** finds a decimal again, unless what is left is off by half
a unit that the decimal is odd in. -/
theorem restored_iff {back : Nat} (ha : a = m * tens w) (hm : m < mantissaBound) (hw : w ≤ 28)
    (hx : x ≤ a) (hr : nearestRatio? (a - x) 1 = some r)
    (hback : nearestRatio? (r + x) 1 = some back) :
    back = a ↔ ¬ OddHalf a ((r + x : Nat) - a) := by
  constructor
  · rintro rfl
    exact not_oddHalf_of_nearestRatio? hback
  · intro hodd
    obtain ⟨p, q, hq, hnear, -, hfirst⟩ := exists_places hr
    have hpw : p ≤ w := le_of_places (ha ▸ Nat.sub_le a x) hm hfirst
    have hunit : tens p ∣ a := by
      rw [ha, show w = w - p + p by omega, tens_add, ← Nat.mul_assoc]
      exact Nat.dvd_mul_left _ _
    -- the second rounding has as many digits to deal with as the first
    have hmore := sub_le_add_of_near hunit (hq ▸ Nat.dvd_mul_left _ _) hx hnear
    refine Option.some.inj (hback.symm.trans ?_)
    subst ha
    refine nearestRatio?_of_near hm hw hpw (fun j hj => ?_) (by omega) hodd
    refine Nat.le_trans (hfirst j hj) (digitsAt_le_digitsAt Nat.one_pos Nat.one_pos ?_ j)
    rwa [Nat.mul_one, Nat.mul_one]

/-! ## Decimals -/

/-- **A number is lost** where `d` is added to it and taken away again: the first sum is off by
half a unit that the number is odd in. -/
def Loses (a d : Decimal) : Prop :=
  ∃ rest, a.plus d = .ok rest ∧ OddHalf a.quanta.natAbs (a.quanta + d.quanta - rest.quanta)

variable {b c d rest back : Decimal}

/-- Nothing is lost by a sum that is exact. -/
theorem not_loses_of_exact (h : quanta <$> b.plus d = .ok (b.quanta + d.quanta)) :
    ¬ b.Loses d := by
  rintro ⟨c, hc, k, i, hhalf, -⟩
  rw [hc] at h
  have hexact : c.quanta = b.quanta + d.quanta := Except.ok.inj h
  have := tens_pos k
  omega

/-- A sum that is not negative is the decimal nearest to so many quanta. -/
theorem nearestRatio?_of_plus {n q : Nat} (hn : b.quanta + d.quanta = n) (h : b.plus d = .ok c)
    (hq : c.quanta = q) : nearestRatio? n 1 = some q := by
  have hc := nearest?_of_add? (plus_eq_ok.mp h)
  have hpos : ¬ (n : Int) * tens 28 < 0 :=
    Int.not_lt.mpr (Int.mul_nonneg (Int.natCast_nonneg n) (Int.natCast_nonneg _))
  have hratio : nearestRatio? (n * tens 28) (tens 28) = nearestRatio? n 1 := by
    have := nearestRatio?_mul_mul (n := n) (d := 1) (tens_pos 28)
    rwa [Nat.one_mul] at this
  rw [hn, nearest?_eq_nearestRatio?, decide_eq_false hpos, Int.natAbs_mul, Int.natAbs_natCast,
    Int.natAbs_natCast, hratio, hq] at hc
  obtain ⟨x, hx, hsigned⟩ := Option.map_eq_some_iff.mp hc
  rw [hx, Int.ofNat_inj.mp hsigned]

/-- **Taking away and putting back** gives a number of the same value again, unless it is
lost. -/
theorem plus_neg_same_iff (hd : d.quanta ≤ 0) (hle : 0 ≤ b.quanta + d.quanta)
    (hrest : b.plus d = .ok rest) (hback : rest.plus (-d) = .ok back) :
    back.Same b ↔ ¬ b.Loses d := by
  have hmantissa := quanta_of_nonneg (a := b) (by omega)
  have hrestpos : 0 ≤ rest.quanta := by
    have := sign_of_plus hrest
    omega
  have hbackpos : 0 ≤ back.quanta := by
    have := sign_of_plus hback
    rw [quanta_neg] at this
    omega
  obtain ⟨x, hx⟩ := Int.eq_ofNat_of_zero_le (show 0 ≤ -d.quanta by omega)
  obtain ⟨r, hr⟩ := Int.eq_ofNat_of_zero_le hrestpos
  obtain ⟨y, hy⟩ := Int.eq_ofNat_of_zero_le hbackpos
  generalize ha : b.mantissa * tens (28 - b.scale) = a at hmantissa
  have hfirst := nearestRatio?_of_plus (n := a - x) (by omega) hrest hr
  have hsecond := nearestRatio?_of_plus (n := r + x) (by rw [quanta_neg]; omega) hback hy
  have hlost : b.Loses d ↔ OddHalf a ((r + x : Nat) - a) := by
    have hdistance : (b.quanta + d.quanta - rest.quanta).natAbs =
        (((r + x : Nat) : Int) - a).natAbs := by omega
    have hsize : b.quanta.natAbs = a := by omega
    constructor
    · rintro ⟨c, hc, k, i, hhalf, hodd⟩
      obtain rfl := Except.ok.inj (hrest.symm.trans hc)
      exact ⟨k, i, hdistance ▸ hhalf, hsize ▸ hodd⟩
    · rintro ⟨k, i, hhalf, hodd⟩
      exact ⟨rest, hrest, k, i, hdistance.symm ▸ hhalf, hsize.symm ▸ hodd⟩
  rw [same_def, hmantissa, hy, Int.ofNat_inj, hlost]
  exact restored_iff ha.symm b.mantissa_lt (by omega) (by omega) hfirst hsecond

end Decimal

end StakeAccounting

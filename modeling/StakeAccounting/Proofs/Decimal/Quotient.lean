import StakeAccounting.Decimal.Quotient
import StakeAccounting.Proofs.Decimal.Ratio

/-!
# A quotient is the exact quotient, rounded

The long division brings down up to nine places at a time, closes on a remainder, may
have gone one place too far and then steps back, and sheds some of the zeros it ends
with. None of that shows in the value: a quotient is worth the decimal nearest the
exact ratio of the quanta (`map_quanta_div?`), as a sum is worth the one nearest the
exact sum, and there is none exactly where that is out of range.

The division is followed by its invariant `LongDivision.Reaches`: what was found and
what is left make up the dividend, moved by as many places as were brought down. So at
every state the digits found are those of the exact quotient, and each way to end is
one of the ways the nearest decimal is known (`LongDivision.Found`).
-/

namespace StakeAccounting

namespace Decimal

namespace LongDivision

/-- **The division of `n` by `d` reaches `w`**: `k` places were brought down
from the scale `start`. -/
structure Reaches (n d : Nat) (start : Int) (k : Nat) (w : LongDivision) : Prop where
  /-- Digits and remainder make up the dividend. -/
  total : w.quotient * d + w.remainder = n * tens k
  /-- The remainder is one. -/
  remainder_lt : w.remainder < d
  /-- The scale counts the places. -/
  scale_eq : w.scale = start + k

theorem Reaches.init {n d : Nat} (hd : 0 < d) (start : Int) :
    Reaches n d start 0 ⟨n / d, n % d, start⟩ where
  total := by rw [tens_zero, Nat.mul_one, Nat.mul_comm, Nat.div_add_mod]
  remainder_lt := Nat.mod_lt n hd
  scale_eq := by simp

/-- Bringing down more places goes on with the division. -/
theorem Reaches.bringDown {n d k : Nat} {start : Int} {w : LongDivision}
    (h : Reaches n d start k w) (x : Nat) : Reaches n d start (k + x) (w.bringDown d x) where
  total := by
    have hdm := Nat.div_add_mod (w.remainder * tens x) d
    calc (w.quotient * tens x + w.remainder * tens x / d) * d + w.remainder * tens x % d
        = w.quotient * d * tens x
          + (d * (w.remainder * tens x / d) + w.remainder * tens x % d) := by ring
      _ = (w.quotient * d + w.remainder) * tens x := by rw [hdm]; ring
      _ = n * tens (k + x) := by rw [h.total, tens_add, Nat.mul_assoc]
  remainder_lt := Nat.mod_lt _ (Nat.zero_lt_of_lt h.remainder_lt)
  scale_eq := by
    show w.scale + (x : Int) = _
    rw [h.scale_eq]
    push_cast
    ring

/-! ## The digits of the exact quotient -/

variable {n i d j k : Nat} {w : LongDivision}

/-- **The digits of the exact quotient** at the scale the division has reached, or `t` places
before it. -/
theorem Reaches.digitsAt_eq (h : Reaches n d ((i : Int) - j) k w) (hi : i ≤ 28) (hj : j ≤ 28)
    {u : Nat} (hu : w.scale + u = 28) (t : Nat) :
    digitsAt (n * tens (56 - i)) (d * tens (28 - j)) (u + t) =
      divHalfEven (w.quotient * d + w.remainder) (d * tens t) := by
  have hscale := h.scale_eq
  have hn : n * tens (56 - i) = n * tens k * tens (28 - j + u) := by
    rw [Nat.mul_assoc, ← tens_add]
    congr 2
    omega
  have hd : d * tens (28 - j) * tens (u + t) = d * tens t * tens (28 - j + u) := by
    rw [tens_add u, tens_add (28 - j)]
    ring
  rw [digitsAt, hn, hd, divHalfEven_mul_mul _ _ (tens_pos _), h.total]

/-- **The digits found are digits of the exact quotient**: with `t` zeros behind them they
do not exceed it at `t` further places. -/
theorem Reaches.mul_tens_le_digitsAt (h : Reaches n d ((i : Int) - j) k w) (hi : i ≤ 28)
    (hj : j ≤ 28) {t v : Nat} (hv : w.scale + (v + t : Nat) = 28) :
    w.quotient * tens t ≤ digitsAt (n * tens (56 - i)) (d * tens (28 - j)) v := by
  have hscale := h.scale_eq
  have htotal := h.total
  have hpos : 0 < d * tens (28 - j) * tens v :=
    Nat.mul_pos (Nat.mul_pos (Nat.zero_lt_of_lt h.remainder_lt) (tens_pos _)) (tens_pos v)
  refine Nat.le_trans ((Nat.le_div_iff_mul_le hpos).mpr ?_) (div_le_divHalfEven _ _)
  calc w.quotient * tens t * (d * tens (28 - j) * tens v)
      = w.quotient * d * (tens t * (tens (28 - j) * tens v)) := by ring
    _ ≤ n * tens k * (tens t * (tens (28 - j) * tens v)) :=
        Nat.mul_le_mul_right _ (by omega)
    _ = n * tens (56 - i) := by
        rw [← tens_add, ← tens_add, Nat.mul_assoc, ← tens_add]
        congr 2
        omega

/-- **What a division ends with** is the nearest decimal, as digits with a scale, or there
is none in range. -/
def Found (n d : Nat) : Option (Nat × Nat) → Prop
  | none => nearestRatio? n d = none
  | some (q, s) => q < mantissaBound ∧ s ≤ 28 ∧ nearestRatio? n d = some (q * tens (28 - s))

/-- **A division without remainder** has found the quotient. -/
theorem Reaches.found_of_exact (h : Reaches n d ((i : Int) - j) k w) (hi : i ≤ 28) (hj : j ≤ 28)
    (hr : w.remainder = 0) (hq : w.quotient < mantissaBound) {s : Nat} (hs : w.scale = s)
    (hs28 : s ≤ 28) : Found (n * tens (56 - i)) (d * tens (28 - j)) (some (w.quotient, s)) := by
  have hd := Nat.zero_lt_of_lt h.remainder_lt
  have hscale := h.scale_eq
  have htotal := h.total
  have hn : n * tens (56 - i) = w.quotient * tens (28 - s) * (d * tens (28 - j)) := by
    rw [show 56 - i = k + (28 - s + (28 - j)) by omega, tens_add, ← Nat.mul_assoc, ← htotal, hr,
      tens_add]
    ring
  refine ⟨hq, hs28, ?_⟩
  rw [hn, nearestRatio?_mul (Nat.mul_pos hd (tens_pos _)) hq (by omega)]

/-- **Too many digits before the point** are out of range. -/
theorem Reaches.found_none (h : Reaches n d ((i : Int) - j) k w) (hi : i ≤ 28) (hj : j ≤ 28)
    {t : Nat} (ht : w.scale + t ≤ 0) (hmany : mantissaBound ≤ w.quotient * tens t) :
    Found (n * tens (56 - i)) (d * tens (28 - j)) none := by
  have hd := Nat.zero_lt_of_lt h.remainder_lt
  refine (nearestRatio?_eq_none_iff (Nat.mul_pos hd (tens_pos _))).mpr ?_
  calc mantissaBound ≤ w.quotient * tens t := hmany
    _ ≤ w.quotient * tens (-w.scale).toNat := Nat.mul_le_mul_left _ (tens_le_tens (by omega))
    _ ≤ _ := h.mul_tens_le_digitsAt hi hj (v := 28) (by omega)

/-! ## The last digit -/

/-- **Rounding on a remainder**: it is compared with half the divisor. -/
theorem divHalfEven_mul_add {q r : Nat} (hr : r < d) :
    divHalfEven (q * d + r) d =
      if 2 * r < d then q else if d < 2 * r then q + 1 else q + q % 2 := by
  have hdiv : (q * d + r) / d = q := by
    rw [Nat.mul_comm, Nat.mul_add_div (Nat.zero_lt_of_lt hr), Nat.div_eq_of_lt hr, Nat.add_zero]
  have hmod : (q * d + r) % d = r := by
    rw [Nat.mul_add_mod_self_right, Nat.mod_eq_of_lt hr]
  rw [divHalfEven, hdiv, hmod]

/-- **Rounding one place earlier**: the last digit and what is left behind it are compared
with half a place. -/
theorem divHalfEven_mul_add_ten {q r : Nat} (hr : r < d) :
    divHalfEven (q * d + r) (d * 10) =
      if 5 < q % 10 ∨ q % 10 = 5 ∧ (r ≠ 0 ∨ q / 10 % 2 = 1) then q / 10 + 1 else q / 10 := by
  have hsplit := Nat.div_add_mod q 10
  have hlast := Nat.mod_lt q (show 0 < 10 by decide)
  generalize q / 10 = whole at hsplit
  generalize q % 10 = e at hsplit hlast
  have hmoved : q * d + r = whole * (d * 10) + (e * d + r) := by
    rw [← hsplit]
    ring
  have hless : e * d + r < d * 10 := by
    have : e * d ≤ 9 * d := Nat.mul_le_mul_right d (by omega)
    omega
  rw [hmoved, divHalfEven_mul_add hless]
  rcases Nat.lt_trichotomy e 5 with hlow | rfl | hhigh
  · have : e * d ≤ 4 * d := Nat.mul_le_mul_right d (by omega)
    rw [if_pos (by omega), if_neg (by omega)]
  · -- on the middle, anything that is left decides, and nothing leaves it to the even digit
    split
    · omega
    · split
      · rw [if_pos (Or.inr ⟨rfl, Or.inl (by omega)⟩)]
      · split <;> omega
  · have : 6 * d ≤ e * d := Nat.mul_le_mul_right d (by omega)
    rw [if_neg (by omega), if_pos (by omega), if_pos (Or.inl hhigh)]

/-- **Where the last digit fills the mantissa**, one place less leaves a tenth of it. -/
theorem Reaches.digitsAt_of_filled (h : Reaches n d ((i : Int) - j) k w) (hi : i ≤ 28)
    (hj : j ≤ 28) {u : Nat} (hu : w.scale + u = 28) (hq : w.quotient < mantissaBound)
    (hfill : mantissaBound ≤ digitsAt (n * tens (56 - i)) (d * tens (28 - j)) u) :
    digitsAt (n * tens (56 - i)) (d * tens (28 - j)) (u + 1) = divHalfEven mantissaBound 10 := by
  have hd := Nat.zero_lt_of_lt h.remainder_lt
  have hrem := h.remainder_lt
  have hmore := mantissaBound_le_digitsAt_succ (Nat.mul_pos hd (tens_pos (28 - j))) hfill
  have hless : digitsAt (n * tens (56 - i)) (d * tens (28 - j)) (u + 1) ≤
      7922816251426433759354395034 := by
    rw [h.digitsAt_eq hi hj hu 1, tens_one]
    refine divHalfEven_le (by omega) ?_
    calc w.quotient * d + w.remainder ≤ (w.quotient + 1) * d := by rw [Nat.add_mul]; omega
      _ ≤ mantissaBound * d := Nat.mul_le_mul_right d hq
      _ ≤ 7922816251426433759354395034 * 10 * d := Nat.mul_le_mul_right d (by decide)
      _ = 7922816251426433759354395034 * (d * 10) := by ring
  rw [show divHalfEven mantissaBound 10 = 7922816251426433759354395034 by decide]
  have hbound : mantissaBound = 79228162514264337593543950336 := rfl
  omega

/-! ## The ways to end -/

theorem settled_of_nonneg {q : Nat} {s : Int} (hs : 0 ≤ s) : settled q s = some (q, s.toNat) :=
  if_pos hs

theorem settled_of_neg {q : Nat} {s : Int} (hs : s < 0) : settled q s = none :=
  if_neg (Int.not_le.mpr hs)

/-- **Settling on digits of the exact quotient** finds the nearest decimal, if one place more
would be too many. -/
theorem found_settled {N D v : Nat} {s : Int} (hD : 0 < D) (hv : s + v = 28) (hs : 0 ≤ s)
    (hfit : digitsAt N D v < mantissaBound)
    (hmore : v = 0 ∨ mantissaBound ≤ digitsAt N D (v - 1)) :
    Found N D (settled (digitsAt N D v) s) := by
  rw [settled_of_nonneg hs]
  refine ⟨hfit, by omega, ?_⟩
  rw [nearestRatio?_of_digitsAt hD (by omega) hfit hmore]
  congr 3
  omega

/-- **A division that is full** – no place is left, or no room for one – is closed with the
nearest decimal. -/
theorem Reaches.found_closed (h : Reaches n d ((i : Int) - j) k w) (hi : i ≤ 28) (hj : j ≤ 28)
    (hq : w.quotient < mantissaBound) (hs : 0 ≤ w.scale) (hs28 : w.scale ≤ 28)
    (hfull : w.scale = 28 ∨ mantissaBound ≤ w.quotient * 10) :
    Found (n * tens (56 - i)) (d * tens (28 - j)) (w.closed d) := by
  have hD : 0 < d * tens (28 - j) :=
    Nat.mul_pos (Nat.zero_lt_of_lt h.remainder_lt) (tens_pos _)
  obtain ⟨u, hu⟩ : ∃ u : Nat, w.scale + u = 28 := ⟨(28 - w.scale).toNat, by omega⟩
  have hdigits := h.digitsAt_eq hi hj hu 0
  rw [tens_zero, Nat.mul_one, Nat.add_zero, divHalfEven_mul_add h.remainder_lt] at hdigits
  unfold closed
  dsimp only
  rw [← hdigits]
  split
  · rename_i hfit
    refine found_settled hD hu hs hfit ?_
    rcases hfull with hlast | hroom
    · exact Or.inl (by omega)
    · by_cases hlast : u = 0
      · exact Or.inl hlast
      · exact Or.inr (Nat.le_trans hroom
          (h.mul_tens_le_digitsAt hi hj (t := 1) (v := u - 1) (by omega)))
  · -- the last digit is rounded up and fills the mantissa, so one place is given up
    rename_i hfill
    have hfill := Nat.le_of_not_lt hfill
    have htenth := h.digitsAt_of_filled hi hj hu hq hfill
    have hbound : digitsAt (n * tens (56 - i)) (d * tens (28 - j)) u = mantissaBound := by
      rw [hdigits] at hfill ⊢
      split at hfill
      · omega
      · split at hfill <;> split <;> omega
    rw [hbound]
    by_cases hzero : w.scale = 0
    · rw [settled_of_neg (by omega)]
      refine (nearestRatio?_eq_none_iff hD).mpr ?_
      rwa [show u = 28 by omega] at hfill
    · rw [← htenth]
      refine found_settled hD (by omega) (by omega) ?_ (Or.inr hfill)
      rw [htenth]
      decide

/-- **A division that went one place too far** steps back to the nearest decimal. -/
theorem Reaches.found_stepBack (h : Reaches n d ((i : Int) - j) k w) (hi : i ≤ 28) (hj : j ≤ 28)
    (hs : w.scale ≤ 28) (hmany : mantissaBound ≤ w.quotient)
    (hfew : w.quotient / 10 + 1 < mantissaBound) :
    Found (n * tens (56 - i)) (d * tens (28 - j)) w.stepBack := by
  have hD : 0 < d * tens (28 - j) :=
    Nat.mul_pos (Nat.zero_lt_of_lt h.remainder_lt) (tens_pos _)
  unfold stepBack
  dsimp only
  by_cases hneg : w.scale ≤ 0
  · rw [settled_of_neg (by omega)]
    exact h.found_none hi hj (t := 0) (by omega) (by rwa [tens_zero, Nat.mul_one])
  · obtain ⟨u, hu⟩ : ∃ u : Nat, w.scale + u = 28 := ⟨(28 - w.scale).toNat, by omega⟩
    have hdigits := h.digitsAt_eq hi hj hu 1
    rw [tens_one, divHalfEven_mul_add_ten h.remainder_lt] at hdigits
    have hmore := h.mul_tens_le_digitsAt hi hj (t := 0) (v := u) (by omega)
    rw [tens_zero, Nat.mul_one] at hmore
    rw [← hdigits]
    refine found_settled hD (by omega) (by omega) ?_ (Or.inr (Nat.le_trans hmany hmore))
    rw [hdigits]
    split <;> omega

/-! ## The division -/

/-- **The room that is left**: so many places fit, and one more would not. -/
theorem roomFor_spec (q m : Nat) : roomFor q m ≤ m ∧
    (0 < roomFor q m → q * tens (roomFor q m) < mantissaBound) ∧
    (roomFor q m < m → mantissaBound ≤ q * tens (roomFor q m + 1)) := by
  induction m with
  | zero => exact ⟨Nat.le_refl 0, nofun, nofun⟩
  | succ m ih =>
    unfold roomFor
    split
    · rename_i hfit
      exact ⟨Nat.le_refl _, fun _ => hfit, fun h => absurd h (Nat.lt_irrefl _)⟩
    · rename_i hfull
      refine ⟨Nat.le_succ_of_le ih.1, ih.2.1, fun _ => ?_⟩
      rcases Nat.lt_or_eq_of_le ih.1 with hlt | heq
      · exact ih.2.2 hlt
      · rw [heq]
        exact Nat.le_of_not_lt hfull

/-- One place too far is not two: without its last digit the quotient leaves room. -/
theorem bringDown_quotient_div_ten_lt {x : Nat} (hr : w.remainder < d) (hx : x ≤ 9)
    (hfit : w.quotient * tens x < mantissaBound) :
    (w.bringDown d x).quotient / 10 + 1 < mantissaBound := by
  have hdigits : w.remainder * tens x / d < tens x :=
    Nat.div_lt_of_lt_mul (Nat.mul_lt_mul_of_pos_right hr (tens_pos x))
  have hnine : tens x ≤ 1000000000 := tens_le_tens hx
  have hbound : mantissaBound = 79228162514264337593543950336 := rfl
  show (w.quotient * tens x + w.remainder * tens x / d) / 10 + 1 < mantissaBound
  omega

/-- Whether digits had to be brought down is not asked for. -/
theorem map_snd_map (inexact : Bool) (found : Option (Nat × Nat)) :
    (found.map (inexact, ·)).map (·.2) = found := by
  cases found <;> rfl

/-- **The digits of a quotient** are those of the nearest decimal, or it is out of range.
The recursion is on the fuel; there is enough of it as long as it exceeds the places that
are still free. -/
theorem found_digits (hi : i ≤ 28) (hj : j ≤ 28) :
    ∀ (fuel : Nat) (inexact : Bool) {k : Nat} {w : LongDivision},
      Reaches n d ((i : Int) - j) k w → w.scale ≤ 28 → 28 < w.scale + fuel →
      w.quotient < mantissaBound →
        Found (n * tens (56 - i)) (d * tens (28 - j)) ((digits d fuel inexact w).map (·.2)) := by
  intro fuel
  induction fuel with
  | zero => intro inexact k w _ hle hgt; omega
  | succ fuel ih =>
    intro inexact k w h hle hgt hq
    have hscale : ∀ x, (w.bringDown d x).scale = w.scale + x := fun _ => rfl
    unfold digits
    by_cases hr : w.remainder = 0
    · rw [if_pos hr]
      by_cases hs : 0 ≤ w.scale
      · rw [if_pos hs]
        exact h.found_of_exact hi hj hr hq (by omega) (by omega)
      · -- the divisor has more places than the dividend, so zeros are put behind the quotient
        rw [if_neg hs]
        dsimp only
        have hx := hscale (min 9 (-w.scale).toNat)
        split
        · rename_i hfit
          refine ih inexact (h.bringDown _) (by omega) (by omega) ?_
          show w.quotient * tens _ + w.remainder * tens _ / d < mantissaBound
          rwa [hr, Nat.zero_mul, Nat.zero_div, Nat.add_zero]
        · rename_i hmany
          exact h.found_none hi hj (t := min 9 (-w.scale).toNat) (by omega)
            (Nat.le_of_not_lt hmany)
    · rw [if_neg hr]
      obtain ⟨hroom, hfits, hfull⟩ := roomFor_spec w.quotient (min 9 (28 - w.scale).toNat)
      generalize roomFor w.quotient (min 9 (28 - w.scale).toNat) = x at hroom hfits hfull
      have hx := hscale x
      dsimp only
      split
      · rename_i hout
        exact h.found_none hi hj (t := x + 1) (by omega) (hfull (by omega))
      · rename_i hin
        split
        · rename_i hzero
          rw [hzero] at hfull hin
          rw [map_snd_map]
          refine h.found_closed hi hj hq (by omega) hle ?_
          by_cases hlast : w.scale = 28
          · exact Or.inl hlast
          · exact Or.inr (hfull (by omega))
        · rename_i hsome
          split
          · rename_i hfit
            exact ih true (h.bringDown x) (by omega) (by omega) hfit
          · rename_i hmany
            rw [map_snd_map]
            exact (h.bringDown x).found_stepBack hi hj (by omega) (Nat.le_of_not_lt hmany)
              (bringDown_quotient_div_ten_lt h.remainder_lt (by omega)
                (hfits (Nat.pos_of_ne_zero hsome)))

end LongDivision

/-! ## Taking zeros off -/

/-- **What shedding zeros keeps**: any property of digits with a scale that taking zeros off
both of them keeps. -/
theorem trimmed_keeps {P : Nat × Nat → Prop}
    (keeps : ∀ q s k, k ≤ s → q % tens k = 0 → P (q, s) → P (q / tens k, s - k))
    {p : Nat × Nat} (h : P p) : P (trimmed p) := by
  have hzeros : ∀ k p, P p → P (dropZeros k p) := by
    rintro k ⟨q, s⟩ h
    unfold dropZeros
    dsimp only
    split
    · rename_i hk
      exact keeps q s k hk.1 hk.2 h
    · exact h
  have heights : ∀ m p, P p → P (dropEights m p) := by
    intro m
    induction m with
    | zero => exact fun _ h => h
    | succ m ih =>
      rintro ⟨q, s⟩ h
      unfold dropEights
      split
      · rename_i hk
        exact ih _ (keeps q s 8 hk.2.1 hk.2.2 h)
      · exact h
  exact hzeros 1 _ (hzeros 2 _ (hzeros 4 _ (heights 3 p h)))

theorem LongDivision.found_trimmed {n d : Nat} {p : Nat × Nat}
    (h : LongDivision.Found n d (some p)) : LongDivision.Found n d (some (trimmed p)) := by
  refine trimmed_keeps (P := fun p => LongDivision.Found n d (some p)) ?_ h
  rintro q s k hk hq ⟨hfit, hs, hnearest⟩
  have hdvd : q / tens k * tens k = q := Nat.div_mul_cancel (Nat.dvd_of_mod_eq_zero hq)
  refine ⟨Nat.lt_of_le_of_lt (Nat.div_le_self q _) hfit, by omega, ?_⟩
  rw [hnearest, show 28 - (s - k) = k + (28 - s) by omega, tens_add, ← Nat.mul_assoc, hdvd]

/-! ## The law of the quotient -/

/-- **A quotient is the exact quotient, rounded.** -/
theorem map_quanta_div? {a b : Decimal} (hb : b.mantissa ≠ 0) :
    (div? a b).map quanta = (nearestRatio? (a.quanta.natAbs * tens 28) b.quanta.natAbs).map
      fun q => signed (a.negative != b.negative) q := by
  have hsa := a.scale_le
  have hsb := b.scale_le
  have hpos : 0 < b.mantissa := Nat.pos_of_ne_zero hb
  have hn : a.quanta.natAbs * tens 28 = a.mantissa * tens (56 - a.scale) := by
    rw [natAbs_quanta, Nat.mul_assoc, ← tens_add]
    congr 2
    omega
  rw [hn, natAbs_quanta b]
  unfold div?
  rw [if_neg hb]
  by_cases ha : a.mantissa = 0
  · rw [if_pos ha, ha, Nat.zero_mul, nearestRatio?_zero (Nat.mul_pos hpos (tens_pos _))]
    cases a.negative != b.negative <;> rfl
  · have hfound := LongDivision.found_digits hsa hsb divisionSteps false
      (LongDivision.Reaches.init (n := a.mantissa) hpos ((a.scale : Int) - b.scale))
      (by dsimp only; omega) (by unfold divisionSteps; dsimp only; omega)
      (Nat.lt_of_le_of_lt (Nat.div_le_self _ _) a.mantissa_lt)
    rw [if_neg ha]
    dsimp only
    cases hdigits : LongDivision.digits b.mantissa divisionSteps false
      ⟨a.mantissa / b.mantissa, a.mantissa % b.mantissa, (a.scale : Int) - b.scale⟩ with
    | none =>
      rw [hdigits] at hfound
      rw [show nearestRatio? _ _ = none from hfound]
      rfl
    | some found =>
      obtain ⟨inexact, found⟩ := found
      rw [hdigits] at hfound
      dsimp only
      have hshed : LongDivision.Found (a.mantissa * tens (56 - a.scale))
          (b.mantissa * tens (28 - b.scale))
          (some (if inexact then trimmed found else found)) := by
        split
        · exact LongDivision.found_trimmed hfound
        · exact hfound
      generalize (if inexact then trimmed found else found) = shed at hshed
      obtain ⟨q, s⟩ := shed
      obtain ⟨hfit, hs, hnearest⟩ := hshed
      dsimp only
      rw [hnearest, ofParts?, dif_pos ⟨hfit, hs⟩, Option.map_some, Option.map_some, quanta,
        coefficient_eq_signed]
      dsimp only
      -- a quotient that is zero has no sign
      by_cases hq : q = 0
      · rw [hq]
        cases a.negative != b.negative <;> simp [signed]
      · rw [show (q != 0) = true by simpa using hq, Bool.and_true]
        cases a.negative != b.negative <;> simp [signed]

/-! ## Quotients of numbers that are not negative -/

/-- A positive number has digits and no minus sign. -/
theorem mantissa_pos {a : Decimal} (h : zero < a) : 0 < a.mantissa ∧ a.negative = false := by
  rw [lt_def, quanta_zero] at h
  have hm : a.mantissa ≠ 0 := by
    intro hz
    rw [quanta_of_mantissa_eq_zero hz] at h
    omega
  refine ⟨Nat.pos_of_ne_zero hm, ?_⟩
  by_contra hneg
  have ht : (0 : Int) < tens (28 - a.scale) := Int.natCast_pos.mpr (tens_pos _)
  rw [quanta, coefficient, if_pos (by simpa using hneg)] at h
  have := Int.mul_neg_of_neg_of_pos (show -(a.mantissa : Int) < 0 by omega) ht
  omega

/-- **The quotient of a number that is not negative by a positive one** is the decimal
nearest their ratio. -/
theorem map_quanta_div?_of_nonneg {a b : Decimal} (ha : 0 ≤ a.quanta) (hb : zero < b) :
    (div? a b).map quanta = (nearestRatio? (a.quanta.toNat * tens 28) b.quanta.toNat).map
      fun q : Nat => (q : Int) := by
  obtain ⟨hm, hneg⟩ := mantissa_pos hb
  have hpos : 0 < b.quanta := hb
  rw [map_quanta_div? (by omega), hneg,
    show a.quanta.natAbs = a.quanta.toNat by omega, show b.quanta.natAbs = b.quanta.toNat by omega]
  by_cases hzero : a.quanta = 0
  · -- a zero may carry a minus sign, which its quotient does not show
    rw [hzero, Int.toNat_zero, Nat.zero_mul, nearestRatio?_zero (by omega)]
    cases a.negative <;> rfl
  · obtain ⟨-, haneg⟩ := mantissa_pos (show zero < a by rw [lt_def, quanta_zero]; omega)
    rw [haneg]
    rfl

/-- The quotient that there is, is the exact quotient rounded. -/
theorem nearestRatio?_of_div? {a b c : Decimal} {n d : Nat} (ha : a.quanta = n) (hb : b.quanta = d)
    (hd : 0 < d) (h : div? a b = some c) :
    ∃ q, nearestRatio? (n * tens 28) d = some q ∧ c.quanta = q := by
  have hmap := map_quanta_div?_of_nonneg (a := a) (b := b) (by omega)
    (by rw [lt_def, quanta_zero]; omega)
  rw [h, Option.map_some, ha, hb, Int.toNat_natCast, Int.toNat_natCast] at hmap
  obtain ⟨q, hq, hqc⟩ := Option.map_eq_some_iff.mp hmap.symm
  exact ⟨q, hq, hqc.symm⟩

/-- A quotient of numbers that are not negative is not negative. -/
theorem div?_nonneg {a b c : Decimal} (ha : zero ≤ a) (hb : zero < b) (h : div? a b = some c) :
    zero ≤ c := by
  have hmap := map_quanta_div?_of_nonneg ha hb
  rw [h, Option.map_some] at hmap
  obtain ⟨q, -, hqc⟩ := Option.map_eq_some_iff.mp hmap.symm
  rw [le_def, quanta_zero, ← hqc]
  exact Int.natCast_nonneg q

/-- A quotient of a number that is not positive by a positive one is not positive. -/
theorem div?_nonpos {a b c : Decimal} (ha : a ≤ zero) (hb : zero < b) (h : div? a b = some c) :
    c ≤ zero := by
  obtain ⟨hm, hbneg⟩ := mantissa_pos hb
  have hmap := map_quanta_div? (a := a) (Nat.ne_of_gt hm)
  rw [h, Option.map_some, hbneg] at hmap
  obtain ⟨q, hq, hqc⟩ := Option.map_eq_some_iff.mp hmap.symm
  rw [le_def, quanta_zero] at ha ⊢
  cases haneg : a.negative with
  | true =>
    rw [← hqc, haneg]
    show -(q : Int) ≤ 0
    omega
  | false =>
    -- without a minus sign it is a zero, and so is its quotient
    have hzero : a.quanta = 0 := Int.le_antisymm ha (quanta_nonneg haneg)
    have hpos : 0 < b.quanta := hb
    rw [hzero, Int.natAbs_zero, Nat.zero_mul, nearestRatio?_zero (by omega)] at hq
    obtain rfl := Option.some.inj hq
    rw [← hqc, haneg]
    exact Int.le_refl 0

/-- **When there is no quotient**: the exact one is farther from zero than any decimal, and not
nearest the last of them. -/
theorem div?_eq_none_iff {a b : Decimal} (hb : zero < b) :
    div? a b = none ↔
      (2 * (mantissaBound - 1) + 1) * b.quanta.natAbs ≤ 2 * a.quanta.natAbs := by
  have hpos : 0 < b.quanta := hb
  rw [← Option.map_eq_none_iff (f := quanta), map_quanta_div? (Nat.ne_of_gt (mantissa_pos hb).1),
    Option.map_eq_none_iff]
  exact nearestRatio?_tens_eq_none_iff (by omega)

/-- **Quotients keep the order** of the exact ones, which are compared across. -/
theorem div?_le_div? {a b a' b' c c' : Decimal} (ha : zero ≤ a) (hb : zero < b) (ha' : zero ≤ a')
    (hb' : zero < b') (hle : a.quanta * b'.quanta ≤ a'.quanta * b.quanta)
    (h : div? a b = some c) (h' : div? a' b' = some c') : c ≤ c' := by
  rw [le_def, quanta_zero] at ha ha'
  rw [lt_def, quanta_zero] at hb hb'
  obtain ⟨n, hn⟩ := Int.eq_ofNat_of_zero_le ha
  obtain ⟨m, hm⟩ := Int.eq_ofNat_of_zero_le ha'
  obtain ⟨d, hd⟩ := Int.eq_ofNat_of_zero_le (Int.le_of_lt hb)
  obtain ⟨e, he⟩ := Int.eq_ofNat_of_zero_le (Int.le_of_lt hb')
  obtain ⟨p, hp, hpc⟩ := nearestRatio?_of_div? hn hd (by omega) h
  obtain ⟨q, hq, hqc⟩ := nearestRatio?_of_div? hm he (by omega) h'
  rw [hn, hm, hd, he] at hle
  have hcross : n * tens 28 * e ≤ m * tens 28 * d := by
    rw [Nat.mul_right_comm, Nat.mul_right_comm m]
    exact Nat.mul_le_mul_right _ (by exact_mod_cast hle)
  have hkeeps := saturatedRatio_le_saturatedRatio (by omega) (by omega) hcross
  rw [saturatedRatio_of_some hp, saturatedRatio_of_some hq] at hkeeps
  rw [le_def, hpc, hqc]
  exact Int.ofNat_le.mpr hkeeps

/-- **A fraction of a whole**: a positive number divided by a greater one has a
quotient, which is neither negative nor greater than one. -/
theorem exists_div?_of_lt {a b : Decimal} (ha : zero < a) (hab : a < b) :
    ∃ c, div? a b = some c ∧ zero ≤ c ∧ c ≤ one := by
  have hb : zero < b := Int.lt_trans ha hab
  rw [lt_def, quanta_zero] at ha hb
  rw [lt_def] at hab
  obtain ⟨q, hq, hle⟩ := nearestRatio?_le (n := a.quanta.toNat * tens 28) (d := b.quanta.toNat)
    (m := 1) (by omega) (by decide) (Nat.le_refl 28)
    (by rw [Nat.one_mul, Nat.mul_comm]; exact Nat.mul_le_mul_left _ (by omega))
  have hmap := map_quanta_div?_of_nonneg (Int.le_of_lt ha) hb
  rw [hq, Option.map_some] at hmap
  obtain ⟨c, hc, hcq⟩ := Option.map_eq_some_iff.mp hmap
  refine ⟨c, hc, ?_, ?_⟩
  · rw [le_def, quanta_zero, hcq]
    exact Int.natCast_nonneg q
  · rw [le_def, quanta_one, hcq]
    rw [Nat.one_mul] at hle
    exact_mod_cast hle

end Decimal

end StakeAccounting

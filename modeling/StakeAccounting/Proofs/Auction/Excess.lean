import StakeAccounting.Proofs.Auction.Capacity
import StakeAccounting.Proofs.Decimal.Error

/-!
# Capacity and debt may exceed the exact value

Capacity and debt are rounded down, so that they are never reported too high. What is rounded down
is a quotient, and four roundings to the nearest come before: of a hundred percent and the one rate,
of the product with that, of a hundred percent and the other rate, and of the quotient itself
(`Capacity.quotient?`). Each of them may go up – or down, in the divisor – and together they may
carry the quotient to the next millionth, where rounding down stops too early.

It takes little for that: a rate of 25 percent and a few units of `10^-27` is a rate of 25 percent,
once a hundred is added (`too_high`). But the error is little, too (`quotient?_spec`), and
`overstated_iff` says when it shows: a millionth has to lie between the exact value and the
quotient, which are apart by the `10^27`-th part of the value and of one at most. For values on
chain there is none.
-/

namespace StakeAccounting

open Decimal

namespace Capacity

variable {v r s c q : Decimal} {n : Nat}

/-- **What a value is carried to** from one rate to another, without any rounding. -/
def carried (v r s : Decimal) : Rat := v.value * (100 + r.value) / (100 + s.value)

theorem carried_eq_debtAt : carried v r s = debtAt v r / (100 + s.value) := rfl

theorem carried_nonneg (hv : .zero ≤ v) (hr : .zero ≤ r) (hs : .zero ≤ s) :
    0 ≤ carried v r s :=
  div_nonneg (mul_nonneg (value_nonneg.mpr hv) (le_of_lt (hundred_add_pos hr)))
    (le_of_lt (hundred_add_pos hs))

/-! ## The quotient -/

/-- **The quotient** that is rounded down in the end, from rounded numbers. -/
def quotient? (v r s : Decimal) : Option Decimal := do
  let num ← hundred.add? r
  let product ← v.mul? num
  let den ← hundred.add? s
  product.div? den

/-- Carrying is rounding down a quotient. -/
theorem scaleFloor_eq_ok :
    scaleFloor v r s = .ok c ↔ ∃ q, quotient? v r s = some q ∧ q.roundDown places = c := by
  have hmap : scaleFloor v r s =
      Outcome.orRefuse (.invalidAmount v) ((quotient? v r s).map (roundDown places)) := by
    rw [scaleFloor, quotient?]
    simp only [Option.map_eq_bind, Option.bind_eq_bind, Option.pure_def, Function.comp_def,
      Option.bind_assoc]
  rw [hmap, Outcome.orRefuse_eq_ok, Option.map_eq_some_iff]

/-- **A hundred percent and a rate** is off in proportion, since it is no small number. -/
theorem add?_hundred_spec {d : Decimal} (hr : .zero ≤ r) (h : hundred.add? r = some d) :
    d.value ≤ (100 + r.value) * (1 + 2 / 10 ^ 28) ∧
      (100 + r.value) * (1 - 2 / 10 ^ 28) ≤ d.value := by
  have hclose := approximates_add? (Decimal.le_of_lt zero_lt_hundred) hr h
  have hup := hclose.value_le
  have hdown := hclose.le_value
  have hr0 := value_nonneg.mpr hr
  rw [show hundred.value = 100 from rfl, natCast_tens] at hup hdown
  constructor <;> linarith

/-- **How far the quotient exceeds** what the value is carried to exactly: four roundings, each by
a part in `10^28` and half a unit of the last place there is. -/
theorem quotient?_spec (hv : .zero ≤ v) (hr : .zero ≤ r) (hs : .zero ≤ s)
    (h : quotient? v r s = some q) :
    .zero ≤ q ∧ q.value ≤ carried v r s + (1 + carried v r s) / tens 27 := by
  simp only [quotient?, Option.bind_eq_bind, Option.bind_eq_some_iff] at h
  obtain ⟨num, hnum, product, hproduct, den, hden, hq⟩ := h
  have hnum0 : zero ≤ num :=
    Decimal.le_trans (Decimal.le_of_lt zero_lt_hundred) (hundred_le_of_add? hr hnum)
  have hden0 : zero < den := Int.lt_of_lt_of_le zero_lt_hundred (hundred_le_of_add? hs hden)
  have hproduct0 : zero ≤ product := mul?_nonneg hproduct hv hnum0
  refine ⟨div?_nonneg hproduct0 hden0 hq, ?_⟩
  have hrate := hundred_add_pos hs
  have hcarried := carried_nonneg hv hr hs
  have hdenpos : 0 < den.value := lt_iff_value_lt.mp hden0
  have hratio : 0 ≤ product.value / den.value :=
    div_nonneg (value_nonneg.mpr hproduct0) (le_of_lt hdenpos)
  have hmul := (approximates_mul? hv hnum0 hproduct).value_le
  have hdiv := (approximates_div? hproduct0 hden0 hq).value_le
  rw [natCast_tens] at hmul hdiv ⊢
  have hdebt : v.value * num.value ≤ carried v r s * (100 + s.value) * (1 + 2 / 10 ^ 28) := by
    rw [carried, div_mul_cancel₀ _ (ne_of_gt hrate), mul_assoc]
    exact mul_le_mul_of_nonneg_left (add?_hundred_spec hr hnum).1 (value_nonneg.mpr hv)
  have hquotient : product.value / den.value * (1 - 2 / 10 ^ 28) ≤
      carried v r s * ((1 + 2 / 10 ^ 28) * (1 + 1 / 10 ^ 28)) + 1 / 2 / 10 ^ 28 := by
    refine le_of_mul_le_mul_right ?_ hrate
    calc product.value / den.value * (1 - 2 / 10 ^ 28) * (100 + s.value)
        = product.value / den.value * ((100 + s.value) * (1 - 2 / 10 ^ 28)) := by ring
      _ ≤ product.value / den.value * den.value :=
          mul_le_mul_of_nonneg_left (add?_hundred_spec hs hden).2 hratio
      _ = product.value := div_mul_cancel₀ _ (ne_of_gt hdenpos)
      _ ≤ v.value * num.value * (1 + 1 / 10 ^ 28) + 1 / 2 / 10 ^ 28 := by linarith
      _ ≤ carried v r s * (100 + s.value) * (1 + 2 / 10 ^ 28) * (1 + 1 / 10 ^ 28) +
          1 / 2 / 10 ^ 28 * (100 + s.value) := by linarith [value_nonneg.mpr hs]
      _ = (carried v r s * ((1 + 2 / 10 ^ 28) * (1 + 1 / 10 ^ 28)) + 1 / 2 / 10 ^ 28) *
          (100 + s.value) := by ring
  linarith

/-! ## When a value is overstated -/

/-- What is worth a number of millionths at least. -/
theorem mul_millionth_le_iff :
    n * millionth ≤ v.value ↔ (n : Int) * tens (28 - places) ≤ v.quanta := by
  have hsplit : (tens 28 : Rat) = tens places * tens (28 - places) := by
    rw [← Nat.cast_mul, ← tens_add]
    rfl
  rw [millionth, mul_one_div, ← tens_places, value_eq, Int.cast_natCast,
    div_le_div_iff₀ (Nat.cast_pos.mpr (tens_pos _)) (Nat.cast_pos.mpr (tens_pos _)), hsplit,
    mul_left_comm, mul_comm (v.quanta : Rat),
    mul_le_mul_iff_right₀ (Nat.cast_pos.mpr (tens_pos _))]
  exact_mod_cast Iff.rfl

/-- **A millionth lies between** what the value is carried to exactly and the quotient. -/
def Overstates (v r s : Decimal) : Prop :=
  ∃ q, quotient? v r s = some q ∧
    ∃ n : Nat, carried v r s < n * millionth ∧ n * millionth ≤ q.value

/-- **`c` is the value at the rate `r`, carried to the rate `s` and rounded down**, as far as that
goes. -/
structure RoundsDown (v r s c : Decimal) : Prop where
  /-- It is in whole millionths. -/
  onChain : AmountOnChain c
  /-- It exceeds the exact value by little. -/
  le : c.value ≤ carried v r s + (1 + carried v r s) / tens 27
  /-- It exceeds the exact value only where a millionth is in reach. -/
  lt_iff : carried v r s < c.value ↔ Overstates v r s
  /-- It does not exceed the exact value of what is on chain. -/
  le_of_onChain : AmountOnChain v → RateOnChain r → RateOnChain s → debtAt v r ≤ debtLimit →
    c.value ≤ carried v r s

theorem roundsDown_of_scaleFloor (hv : .zero ≤ v) (hr : .zero ≤ r) (hs : .zero ≤ s)
    (h : scaleFloor v r s = .ok c) : RoundsDown v r s c := by
  obtain ⟨q, hq, rfl⟩ := scaleFloor_eq_ok.mp h
  obtain ⟨hq0, hqle⟩ := quotient?_spec hv hr hs hq
  have hdown := le_iff_value_le.mp (roundDown_le places q)
  have hc0 : zero ≤ q.roundDown places := roundDown_nonneg hq0
  have hgrid := onGrid_roundDown places q
  refine ⟨⟨hc0, hgrid⟩, le_trans hdown hqle, ⟨fun hlt => ?_, ?_⟩, fun hv hr hs hlimit => ?_⟩
  · obtain ⟨n, hn⟩ := hgrid.exists_counts hc0
    have hvalue : (q.roundDown places).value = n * millionth := by
      rw [value_of_counts hn, millionth, mul_one_div]
    exact ⟨q, hq, n, hvalue ▸ hlt, hvalue ▸ hdown⟩
  · rintro ⟨q', hq', n, hlt, hle⟩
    obtain rfl := Option.some.inj (hq.symm.trans hq')
    exact lt_of_lt_of_le hlt
      (mul_millionth_le_iff.mpr (mul_le_quanta_roundDown (mul_millionth_le_iff.mp hle)))
  · obtain ⟨c, hc, hcarries⟩ := exists_scaleFloor hv hr hs hlimit
    obtain rfl := Except.ok.inj (h.symm.trans hc)
    rw [carried_eq_debtAt, le_div_iff₀ (hundred_add_pos hs.nonneg)]
    exact hcarries.le

/-- Nothing is carried to nothing: the quotient is far below a millionth. -/
theorem roundsDown_of_isZero (hr : .zero ≤ r) (hs : .zero ≤ s) (hzero : v.isZero) :
    RoundsDown v r s v := by
  have hsame : v.Same .zero := (isZero_iff v).mp hzero
  have hvalue : v.value = 0 := same_iff_value_eq.mp hsame
  have hv : .zero ≤ v := Int.le_of_eq hsame.symm
  have hcarried : carried v r s = 0 := by rw [carried, hvalue, zero_mul, zero_div]
  have hgrid : v.OnGrid places := by
    unfold OnGrid
    rw [(same_def _ _).mp hsame]
    exact Int.dvd_zero _
  refine ⟨⟨hv, hgrid⟩, ?_, ⟨fun hlt => ?_, ?_⟩, fun _ _ _ _ => ?_⟩
  · rw [hcarried, hvalue]
    positivity
  · rw [hcarried, hvalue] at hlt
    exact absurd hlt (lt_irrefl 0)
  · rintro ⟨q, hq, n, hlt, hle⟩
    have hsmall := (quotient?_spec hv hr hs hq).2
    rw [hcarried] at hlt hsmall
    rw [natCast_tens] at hsmall
    have hn : (1 : Rat) ≤ n := by
      rw [millionth] at hlt
      exact_mod_cast Nat.pos_of_ne_zero fun hn => by simp [hn] at hlt
    rw [millionth] at hle
    linarith
  · rw [hcarried, hvalue]

/-- **When a value is overstated.** Whenever there is a capacity above equilibrium, a capacity at a
rate below the maximum, or a debt, it is in whole millionths, and exceeds the exact value exactly
if a millionth lies between that and the quotient that is rounded down. The excess is the
`10^27`-th part of the value and of one at most, and there is none for what is on chain. -/
theorem overstated_iff (hv : .zero ≤ v) (hr : .zero ≤ r) (hs : .zero ≤ s) :
    (∀ c, next v r s true = .ok c → RoundsDown v r s c) ∧
      (s < r → ∀ c, atRate v r s = .ok c → RoundsDown v r s c) ∧
      (∀ c, debtFor v r = .ok c → RoundsDown v r .zero c) := by
  refine ⟨fun c h => roundsDown_of_scaleFloor hv hr hs h, fun hsr c h => ?_,
    fun c h => roundsDown_of_scaleFloor hv hr (Decimal.le_refl _) h⟩
  unfold atRate at h
  split at h
  · rename_i hkept
    obtain rfl := Except.ok.inj h
    exact roundsDown_of_isZero hr hs (hkept.resolve_left (Decimal.not_le.mpr hsr))
  · exact roundsDown_of_scaleFloor hv hr hs h

/-- A rate of 25 percent and a bit, with 27 places. -/
def quarter : Decimal := ⟨false, 25000000000000000000000000004, 27, by decide, by decide⟩

/-- Next to no rate, with 27 places. -/
def slight : Decimal := ⟨false, 2, 27, by decide, by decide⟩

/-- A rate just below a ten-thousandth of a percent, with 27 places. -/
def tiny : Decimal := ⟨false, 99999999999999999999999, 27, by decide, by decide⟩

/-- **All three are too high somewhere.** A hundred percent and such a rate have more digits than
there is room for, and the last of them are lost. So 1000 at no rate are carried to 800, not to
799.999999, and 1000 at 25 percent to 1250, not to 1249.999999; and for one there is a debt of
1.000001, not of one. -/
theorem too_high :
    (∃ c, next (.ofUInt32 1000) .zero quarter true = .ok c ∧ c.Same (.ofUInt32 800) ∧
      carried (.ofUInt32 1000) .zero quarter < c.value) ∧
    (∃ c, atRate (.ofUInt32 1000) (.ofUInt32 25) slight = .ok c ∧ c.Same (.ofUInt32 1250) ∧
      carried (.ofUInt32 1000) (.ofUInt32 25) slight < c.value) ∧
    (∃ c, debtFor one tiny = .ok c ∧ c.Same ⟨false, 1000001, 6, by decide, by decide⟩ ∧
      carried one tiny .zero < c.value) :=
  ⟨⟨_, rfl, by decide +kernel, by decide +kernel⟩, ⟨_, rfl, by decide +kernel, by decide +kernel⟩,
    ⟨_, rfl, by decide +kernel, by decide +kernel⟩⟩

/-- Carried from 25 percent to next to no rate, 1000 are overstated: they are a bit less than 1250,
and the quotient is not. Carried to no rate at all they are 1250. -/
theorem overstated_iff_slight :
    .zero ≤ ofUInt32 1000 ∧ .zero ≤ ofUInt32 25 ∧ .zero ≤ slight ∧ slight < ofUInt32 25 ∧
      next (.ofUInt32 1000) (.ofUInt32 25) slight true = .ok (.ofUInt32 1250) ∧
      atRate (.ofUInt32 1000) (.ofUInt32 25) slight = .ok (.ofUInt32 1250) ∧
      debtFor (.ofUInt32 1000) (.ofUInt32 25) = .ok (.ofUInt32 1250) ∧
      Overstates (.ofUInt32 1000) (.ofUInt32 25) slight ∧
      ¬Overstates (.ofUInt32 1000) (.ofUInt32 25) .zero := by
  obtain ⟨-, hatRate, hdebt⟩ := overstated_iff (v := .ofUInt32 1000) (r := .ofUInt32 25)
    (s := slight) (by decide) (by decide) (by decide)
  have hissued : debtFor (.ofUInt32 1000) (.ofUInt32 25) = .ok (.ofUInt32 1250) := by
    decide +kernel
  have hcarried : atRate (.ofUInt32 1000) (.ofUInt32 25) slight = .ok (.ofUInt32 1250) := by
    decide +kernel
  refine ⟨by decide, by decide, by decide, by decide, by decide +kernel, hcarried, hissued,
    (hatRate (by decide) _ hcarried).lt_iff.mp (by decide +kernel), fun hover => ?_⟩
  exact absurd ((hdebt _ hissued).lt_iff.mpr hover) (by decide +kernel)

end Capacity

end StakeAccounting

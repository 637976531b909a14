import Mathlib.Data.List.Forall2
import StakeAccounting.Proofs.Peg.Response

/-!
# The maximum rate over the epochs

The maximum rate is moved by one magnitude at the end of every epoch, and so over many epochs by one
after the other (`Peg.rates`). Two such moves do not simply add up: a sum is rounded, or stops at an
end of the range, and a decrease stops at one percent if it starts above, and does nothing if it
starts below. What makes this tractable is that a decrease has a closed form
(`Peg.quanta_applyRateChange_of_neg`): the rate less the magnitude, but no less than the lower of
one percent and the rate itself.

Two things follow for one epoch: which side of the rate the next one is on (`Peg.Moves`), and that a
higher rate stays the higher one (`Peg.applyRateChange_le_of_le`). Over all epochs the first gives
the floors (`Peg.le_of_mem_rates`), and the second gives the order of two runs in the end, if one
starts lower or moves by smaller magnitudes (`Peg.finalRate_le_finalRate`). `Peg.rates_spec` says
all of it.
-/

namespace StakeAccounting

open Decimal

namespace Peg

variable {r r' next floor : Decimal} {m m' : Int8} {ms ms' : List Int8}

/-! ## One epoch -/

/-- An increase is not cut off. -/
theorem applyRateChange_of_nonneg (r : Decimal) (h : 0 ≤ m) :
    applyRateChange r m = r.addSaturating (ofMagnitude m) :=
  if_neg fun hcut => Int8.not_lt.mpr h hcut.1

/-- A rate and an increase are no less than the rate. -/
theorem le_addSaturating (r : Decimal) (h : 0 ≤ m) : r ≤ r.addSaturating (ofMagnitude m) := by
  rw [Int8.le_iff_toInt_le, Int8.toInt_zero] at h
  have hmoved := moved_le_moved r h
  rwa [Int.zero_mul, Int.add_zero, saturated_of_nearest? (nearest?_quanta r), ← quanta_moved]
    at hmoved

/-- A rate and a decrease are no more than the rate. -/
theorem addSaturating_le (r : Decimal) (h : m < 0) : r.addSaturating (ofMagnitude m) ≤ r := by
  rw [Int8.lt_iff_toInt_lt, Int8.toInt_zero] at h
  have hmoved := moved_le_moved r (Int.le_of_lt h)
  rwa [Int.zero_mul, Int.add_zero, saturated_of_nearest? (nearest?_quanta r), ← quanta_moved]
    at hmoved

/-- **A decrease in closed form**: the sum, but no less than one percent or a rate below that. -/
theorem quanta_applyRateChange_of_neg (r : Decimal) (h : m < 0) :
    (applyRateChange r m).quanta =
      max (r.addSaturating (ofMagnitude m)).quanta (min one.quanta r.quanta) := by
  have hle := addSaturating_le r h
  rw [le_def] at hle
  unfold applyRateChange
  by_cases hcut : r.addSaturating (ofMagnitude m) < one
  · rw [if_pos ⟨h, hcut⟩, quanta_min]
    rw [lt_def] at hcut
    omega
  · rw [if_neg fun hboth => hcut hboth.2]
    rw [lt_def] at hcut
    omega

/-- **What a magnitude does to a rate.** -/
structure Moves (m : Int8) (r next : Decimal) : Prop where
  /-- A decrease does not raise the rate. -/
  le_of_neg : m < 0 → next ≤ r
  /-- A decrease stops at one percent, or at a rate that is below. -/
  min_le_of_neg : m < 0 → Decimal.one.min r ≤ next
  /-- An increase does not lower the rate. -/
  le_of_nonneg : 0 ≤ m → r ≤ next

/-- **The next rate is where its magnitude says.** -/
theorem moves_applyRateChange (r : Decimal) (m : Int8) : Moves m r (applyRateChange r m) where
  le_of_neg h := by
    have hle := addSaturating_le r h
    rw [le_def] at hle ⊢
    rw [quanta_applyRateChange_of_neg r h]
    omega
  min_le_of_neg h := by
    rw [le_def, quanta_min, quanta_applyRateChange_of_neg r h]
    omega
  le_of_nonneg h := by
    rw [applyRateChange_of_nonneg r h]
    exact le_addSaturating r h

/-- **A floor that one percent is not below** is kept by any magnitude. -/
theorem Moves.floor_le (h : Moves m r next) (hone : floor ≤ one) (hr : floor ≤ r) :
    floor ≤ next := by
  by_cases hneg : m < 0
  · have hmin := h.min_le_of_neg hneg
    rw [le_def] at hone hr hmin ⊢
    rw [quanta_min] at hmin
    omega
  · exact Decimal.le_trans hr (h.le_of_nonneg (Int8.not_lt.mp hneg))

/-- **A higher rate stays the higher one**, also where one of the two is cut off. -/
theorem applyRateChange_le_of_le (h : r ≤ r') (m : Int8) :
    applyRateChange r m ≤ applyRateChange r' m := by
  have hsum := addSaturating_le_addSaturating h (ofMagnitude m)
  by_cases hneg : m < 0
  · rw [le_def] at h hsum ⊢
    rw [quanta_applyRateChange_of_neg r hneg, quanta_applyRateChange_of_neg r' hneg]
    omega
  · have hnonneg := Int8.not_lt.mp hneg
    rwa [applyRateChange_of_nonneg r hnonneg, applyRateChange_of_nonneg r' hnonneg]

/-! ## All epochs -/

/-- **The maximum rates over the epochs**: the first, and the one after every magnitude. -/
def rates (r : Decimal) (ms : List Int8) : List Decimal := ms.scanl applyRateChange r

/-- The maximum rate after the last epoch. -/
def finalRate (r : Decimal) (ms : List Int8) : Decimal := ms.foldl applyRateChange r

theorem rates_nil (r : Decimal) : rates r [] = [r] := List.scanl_nil

theorem rates_cons (r : Decimal) (m : Int8) (ms : List Int8) :
    rates r (m :: ms) = r :: rates (applyRateChange r m) ms := List.scanl_cons

theorem length_rates (r : Decimal) (ms : List Int8) : (rates r ms).length = ms.length + 1 :=
  List.length_scanl

/-- The rate after some epochs is the last of them. -/
theorem getElem?_rates (r : Decimal) {i : Nat} (h : i ≤ ms.length) :
    (rates r ms)[i]? = some (finalRate r (ms.take i)) := by
  have hi : i < (rates r ms).length := by rw [length_rates]; omega
  rw [List.getElem?_eq_getElem hi]
  exact congrArg some (List.getElem_scanl hi)

/-- **No rate falls below a floor** that the first is not below, if one percent is not, either. The
induction is on the epochs. -/
theorem le_of_mem_rates (hone : floor ≤ one) (hr : floor ≤ r) : ∀ x ∈ rates r ms, floor ≤ x := by
  induction ms generalizing r with
  | nil =>
    rw [rates_nil]
    exact List.forall_mem_singleton.mpr hr
  | cons m ms ih =>
    rw [rates_cons]
    exact List.forall_mem_cons.mpr ⟨hr, ih ((moves_applyRateChange r m).floor_le hone hr)⟩

/-- **A run that starts lower and moves by smaller magnitudes ends lower**, or at the same rate. The
induction is on the epochs of both. -/
theorem finalRate_le_finalRate (hr : r ≤ r') (h : List.Forall₂ (· ≤ ·) ms ms') :
    finalRate r ms ≤ finalRate r' ms' := by
  induction h generalizing r r' with
  | nil => exact hr
  | @cons m m' ms ms' hm _ ih =>
    exact ih (Decimal.le_trans (applyRateChange_le_of_le hr m)
      (applyRateChange_le_applyRateChange r' hm))

/-- The rate after one more epoch is moved by its magnitude. -/
theorem finalRate_take_succ (r : Decimal) {i : Nat} (h : i < ms.length) :
    finalRate r (ms.take (i + 1)) = applyRateChange (finalRate r (ms.take i)) ms[i] := by
  rw [finalRate, List.take_succ_eq_append_getElem h, List.foldl_concat]
  rfl

/-- **The maximum rate over any number of epochs.** For every first rate and all magnitudes: a rate
that is one percent at least stays so, and one that is not negative stays so; from each epoch to the
next the rate moves as the magnitude says; and with a lower first rate, or some smaller magnitudes,
the last rate is lower or the same. -/
theorem rates_spec (r : Decimal) (ms : List Int8) :
    (rates r ms).getLast? = some (finalRate r ms) ∧
      (.one ≤ r → ∀ x ∈ rates r ms, .one ≤ x) ∧
      (.zero ≤ r → ∀ x ∈ rates r ms, .zero ≤ x) ∧
      (∀ (i : Nat) (h : i < ms.length), ∃ x, (rates r ms)[i]? = some x ∧
        (rates r ms)[i + 1]? = some (applyRateChange x ms[i]) ∧
        Moves ms[i] x (applyRateChange x ms[i])) ∧
      ∀ r' ms', r' ≤ r → List.Forall₂ (· ≤ ·) ms' ms → finalRate r' ms' ≤ finalRate r ms := by
  refine ⟨?_, fun hone => le_of_mem_rates (Decimal.le_refl _) hone,
    fun hzero => le_of_mem_rates (by decide) hzero, fun i h => ?_,
    fun r' ms' hr hms => finalRate_le_finalRate hr hms⟩
  · rw [List.getLast?_eq_getElem?, length_rates, Nat.add_sub_cancel,
      getElem?_rates r (Nat.le_refl _), List.take_length]
  · refine ⟨_, getElem?_rates r (Nat.le_of_lt h), ?_, moves_applyRateChange _ _⟩
    rw [getElem?_rates r h, finalRate_take_succ r h]

/-- The greatest rate cannot rise, so a decrease leads below where it started. Half a percent cannot
fall, and an increase that follows counts in full. -/
theorem rates_spec_greatest :
    let less : Decimal := ⟨false, 79228162514264337593543950334, 0, by decide, by decide⟩
    let more : Decimal := .percent 350
    rates greatest [3, -1] = [greatest, greatest, less] ∧
      rates (.percent 50) [-3, 3] = [.percent 50, .percent 50, more] ∧
      (∀ x ∈ rates greatest [3, -1], .one ≤ x) ∧ (∀ x ∈ rates (.percent 50) [-3, 3], .zero ≤ x) ∧
      finalRate (.percent 50) [-3, -1] ≤ finalRate greatest [3, -1] := by
  intro less more
  obtain ⟨-, hone, -, -, hlast⟩ := rates_spec greatest [3, -1]
  obtain ⟨-, -, hzero, -⟩ := rates_spec (.percent 50) [-3, 3]
  exact ⟨by decide +kernel, by decide +kernel, hone (by decide), hzero (by decide),
    hlast _ _ (by decide) (.cons (by decide) (.cons (by decide) .nil))⟩

end Peg

end StakeAccounting

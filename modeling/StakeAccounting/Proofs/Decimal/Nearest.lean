import Mathlib.Tactic.Linarith
import Mathlib.Tactic.Ring
import StakeAccounting.Outcome

/-!
# Sums and products are rounded exact values

The arithmetic of decimals works on mantissas and scales, but what a sum or a
product is worth depends on what its operands are worth and on nothing else:
`1.5 + 2` and `1.50 + 2.0` are written differently and count the same number of
quanta. This module states that once. `Decimal.nearest?` rounds an exact number
of units of `10^-56` – fine enough for the exact product of two decimals – to
the quanta of a decimal, and

* a sum is `nearest?` of the sum of the quanta (`map_quanta_add?`),
* a difference is `nearest?` of their difference (`map_quanta_sub?`),
* a product is `nearest?` of their product (`map_quanta_mul?`).

What the rounding keeps is then a matter of integers: a number that is a
decimal stays as it is (`nearest?_quanta`), a sign is never turned
(`nearest?_nonneg`, `nearest?_nonpos`), a sum that is not zero does not round to
zero (`nearest?_tens_ne_zero`), and what lies below a decimal is rounded to
something that lies below it, too (`nearest?_of_le`).
-/

namespace StakeAccounting

/-! ## Rounding one quotient -/

/-- A factor that dividend and divisor share changes nothing. -/
theorem divHalfEven_mul_mul (n d : Nat) {c : Nat} (hc : 0 < c) :
    divHalfEven (n * c) (d * c) = divHalfEven n d := by
  have hmod : n * c % (d * c) = n % d * c := Nat.mul_mod_mul_right c n d
  have hdiv : n * c / (d * c) = n / d := Nat.mul_div_mul_right n d hc
  have hlow : 2 * (n % d * c) < d * c ↔ 2 * (n % d) < d := by
    rw [← Nat.mul_assoc]
    exact Nat.mul_lt_mul_right hc
  have hhigh : d * c < 2 * (n % d * c) ↔ d < 2 * (n % d) := by
    rw [← Nat.mul_assoc]
    exact Nat.mul_lt_mul_right hc
  unfold divHalfEven
  rw [hmod, hdiv, if_congr hlow rfl (if_congr hhigh rfl rfl)]

/-- What is at most a multiple of the divisor is rounded to at most that
multiple. -/
theorem divHalfEven_le {n q d : Nat} (hd : 0 < d) (h : n ≤ q * d) : divHalfEven n d ≤ q := by
  have hle : n / d ≤ q := Nat.div_le_of_le_mul (by rwa [Nat.mul_comm])
  by_cases heq : n / d = q
  · -- a quotient that reaches the bound has no remainder to round up
    have hmod : n % d = 0 := by
      have := Nat.div_add_mod n d
      rw [heq, Nat.mul_comm] at this
      omega
    unfold divHalfEven
    rw [hmod, if_pos (by omega), heq]
  · have hlt : n / d < q := Nat.lt_of_le_of_ne hle heq
    unfold divHalfEven
    split
    · omega
    · split <;> omega

/-- Rounding never falls below the whole quotient. -/
theorem div_le_divHalfEven (n d : Nat) : n / d ≤ divHalfEven n d := by
  unfold divHalfEven
  split
  · exact Nat.le_refl _
  · split <;> omega

/-- Rounding goes up by one at most. -/
theorem divHalfEven_le_div_add_one (n d : Nat) : divHalfEven n d ≤ n / d + 1 := by
  unfold divHalfEven
  split
  · omega
  · split <;> omega

@[simp] theorem divHalfEven_zero (d : Nat) : divHalfEven 0 d = 0 := by
  unfold divHalfEven
  simp only [Nat.zero_mod, Nat.zero_div]
  split
  · rfl
  · split <;> omega

namespace Decimal

/-! ## What `fit?` finds -/

/-- The decimal that is left of mantissa `m` and scale `s` when `k` places are
dropped, if that fits. -/
def dropped? (negative : Bool) (m s k : Nat) : Option Decimal :=
  ofParts? negative (divHalfEven m (tens k)) (s - k)

theorem fit?_eq_findSome? (negative : Bool) (m s : Nat) :
    fit? negative m s
      = (List.range' (s - 28) (s + 1 - (s - 28))).findSome? (dropped? negative m s) := rfl

theorem dropped?_eq_some {negative : Bool} {m s k : Nat} {c : Decimal}
    (h : dropped? negative m s k = some c) :
    c.negative = negative ∧ c.mantissa = divHalfEven m (tens k) ∧ c.scale = s - k := by
  unfold dropped? ofParts? at h
  split at h
  · cases h
    exact ⟨rfl, rfl, rfl⟩
  · cases h

theorem dropped?_eq_none {negative : Bool} {m s k : Nat} (hk : s - 28 ≤ k)
    (h : dropped? negative m s k = none) : mantissaBound ≤ divHalfEven m (tens k) := by
  unfold dropped? ofParts? at h
  split at h
  · cases h
  · omega

/-- A search through consecutive numbers ends at the first hit. -/
theorem findSome?_range'_eq_some {α : Type} {f : Nat → Option α} {b : α} :
    ∀ {a n : Nat}, (List.range' a n).findSome? f = some b →
      ∃ k, a ≤ k ∧ k < a + n ∧ f k = some b ∧ ∀ j, a ≤ j → j < k → f j = none := by
  intro a n
  induction n generalizing a with
  | zero => intro h; cases h
  | succ n ih =>
    intro h
    rw [List.range'_succ, List.findSome?_cons] at h
    cases hf : f a with
    | some x =>
      rw [hf] at h
      exact ⟨a, Nat.le_refl _, by omega, by rw [hf]; exact h, fun j _ _ => by omega⟩
    | none =>
      rw [hf] at h
      obtain ⟨k, hak, hkn, hk, hfirst⟩ := ih h
      refine ⟨k, by omega, by omega, hk, fun j hj hjk => ?_⟩
      by_cases hja : j = a
      · rw [hja, hf]
      · exact hfirst j (by omega) hjk

/-- **The decimal `fit?` finds**: some places are dropped, and fewer would not
have done. -/
theorem fit?_eq_some {negative : Bool} {m s : Nat} {c : Decimal}
    (h : fit? negative m s = some c) :
    ∃ k, s - 28 ≤ k ∧ k ≤ s ∧ c.negative = negative ∧ c.mantissa = divHalfEven m (tens k) ∧
      c.scale = s - k ∧ ∀ j, s - 28 ≤ j → j < k → mantissaBound ≤ divHalfEven m (tens j) := by
  rw [fit?_eq_findSome?] at h
  obtain ⟨k, hlow, hhigh, hk, hfirst⟩ := findSome?_range'_eq_some h
  obtain ⟨hn, hm, hs⟩ := dropped?_eq_some hk
  exact ⟨k, hlow, by omega, hn, hm, hs, fun j hj hjk => dropped?_eq_none hj (hfirst j hj hjk)⟩

/-- Where dropping `k` places makes the number fit, `fit?` finds a decimal. -/
theorem exists_fit? (negative : Bool) {m s k : Nat} (hlow : s - 28 ≤ k) (hhigh : k ≤ s)
    (hfit : divHalfEven m (tens k) < mantissaBound) : ∃ c, fit? negative m s = some c := by
  cases h : fit? negative m s with
  | some c => exact ⟨c, rfl⟩
  | none =>
    rw [fit?_eq_findSome?, List.findSome?_eq_none_iff] at h
    have hk : dropped? negative m s k = none := h k (by rw [List.mem_range'_1]; omega)
    have := dropped?_eq_none hlow hk
    omega

/-! ## The value of what is found -/

/-- Dropping `k` of `s` places from a number with a further zero at its end is
dropping `k - 1` places from the number. -/
theorem dropped?_mul_ten (negative : Bool) (m s k : Nat) :
    dropped? negative (m * 10) (s + 1) (k + 1) = dropped? negative m s k := by
  unfold dropped?
  rw [tens_succ, divHalfEven_mul_mul _ _ (by decide), Nat.succ_sub_succ]

/-- A decimal with a further zero at its end is worth what it was. -/
theorem map_quanta_fit?_mul_ten (negative : Bool) (m s : Nat) :
    (fit? negative (m * 10) (s + 1)).map quanta = (fit? negative m s).map quanta := by
  have hshift : ∀ a n, (List.range' (a + 1) n).findSome? (dropped? negative (m * 10) (s + 1))
      = (List.range' a n).findSome? (dropped? negative m s) := by
    intro a n
    rw [show List.range' (a + 1) n = (List.range' a n).map (1 + ·) by
      rw [List.map_add_range', Nat.add_comm], List.findSome?_map]
    refine congrArg (List.findSome? · _) (funext fun k => ?_)
    rw [Function.comp_apply, Nat.add_comm 1 k, dropped?_mul_ten]
  by_cases hs : 28 ≤ s
  · rw [fit?_eq_findSome?, fit?_eq_findSome?,
      show s + 1 - 28 = (s - 28) + 1 by omega,
      show s + 1 + 1 - (s - 28 + 1) = s + 1 - (s - 28) by omega, hshift]
  · by_cases hm : m * 10 < mantissaBound
    · rw [fit?_of_fits negative hm (by omega),
        fit?_of_fits negative (m := m) (by omega) (by omega)]
      have htens : tens (28 - s) = tens (28 - (s + 1)) * 10 := by
        rw [show 28 - s = 28 - (s + 1) + 1 by omega, tens_succ]
      simp only [Option.map_some, quanta, coefficient, htens]
      cases negative
      · simp only [Bool.false_eq_true, if_false]
        push_cast
        exact congrArg some (by ring)
      · simp only [if_true]
        push_cast
        exact congrArg some (by ring)
    · -- the further place does not fit, and what is tried next is what is tried without it
      have hfirst : dropped? negative (m * 10) (s + 1) 0 = none := by
        unfold dropped? ofParts?
        rw [tens_zero, divHalfEven_one, dif_neg (fun h => hm h.1)]
      rw [fit?_eq_findSome?, fit?_eq_findSome?, show s + 1 - 28 = 0 by omega,
        show s - 28 = 0 by omega, show s + 1 + 1 - 0 = s + 1 + 1 by omega, List.range'_succ,
        List.findSome?_cons, hfirst, hshift, Nat.sub_zero]

/-- Zeros at its end leave a decimal worth what it was. -/
theorem map_quanta_fit?_mul_tens (negative : Bool) (m s d : Nat) :
    (fit? negative (m * tens d) (s + d)).map quanta = (fit? negative m s).map quanta := by
  induction d with
  | zero => rw [tens_zero, Nat.mul_one, Nat.add_zero]
  | succ d ih => rw [tens_succ, ← Nat.mul_assoc, ← Nat.add_assoc, map_quanta_fit?_mul_ten, ih]

/-- **The quanta of the decimal nearest `n` units of `10^-56`**, if it is in
range. -/
def nearest? (n : Int) : Option Int := (fit? (decide (n < 0)) n.natAbs 56).map quanta

/-- The signed mantissa. -/
def signed (negative : Bool) (m : Nat) : Int := if negative then -(m : Int) else m

theorem coefficient_eq_signed (a : Decimal) : a.coefficient = signed a.negative a.mantissa := rfl

/-- A zero has no quanta, whatever its sign and scale. -/
theorem map_quanta_fit?_zero (negative : Bool) {s : Nat} (hs : s ≤ 56) :
    (fit? negative 0 s).map quanta = some 0 := by
  obtain ⟨c, hc⟩ := exists_fit? negative (m := 0) (s := s) (k := s - 28) (Nat.le_refl _)
    (by omega) (by rw [divHalfEven_zero]; decide)
  obtain ⟨k, -, -, -, hm, -⟩ := fit?_eq_some hc
  rw [divHalfEven_zero] at hm
  rw [hc, Option.map_some, quanta, coefficient_eq_signed, hm]
  unfold signed
  cases c.negative <;> simp

@[simp] theorem nearest?_zero : nearest? 0 = some 0 :=
  map_quanta_fit?_zero _ (Nat.le_refl 56)

/-- **The value of what is found** depends on the exact value alone. -/
theorem map_quanta_fit? (negative : Bool) (m : Nat) {s : Nat} (hs : s ≤ 56) :
    (fit? negative m s).map quanta = nearest? (signed negative m * tens (56 - s)) := by
  by_cases hm : m = 0
  · rw [hm, map_quanta_fit?_zero negative hs]
    unfold signed
    cases negative <;> simp
  · have ht := tens_pos (56 - s)
    have hpos : 0 < m * tens (56 - s) := Nat.mul_pos (Nat.pos_of_ne_zero hm) ht
    have habs : (signed negative m * tens (56 - s)).natAbs = m * tens (56 - s) := by
      unfold signed
      cases negative <;> simp [Int.natAbs_mul]
    have hsign : decide (signed negative m * (tens (56 - s) : Int) < 0) = negative := by
      unfold signed
      cases negative
      · simp only [Bool.false_eq_true, if_false, decide_eq_false_iff_not, Int.not_lt]
        exact_mod_cast Nat.zero_le _
      · simp only [if_true, decide_eq_true_eq, Int.neg_mul]
        have : (0 : Int) < m * tens (56 - s) := by exact_mod_cast hpos
        omega
    rw [nearest?, habs, hsign, show 56 = s + (56 - s) by omega,
      show s + (56 - s) - s = 56 - s by omega, map_quanta_fit?_mul_tens]

/-! ## The laws of sum and product -/

/-- The quanta of a number in units of `10^-56`. -/
theorem quanta_mul_tens (a : Decimal) :
    a.quanta * tens 28 = signed a.negative a.mantissa * tens (56 - a.scale) := by
  have hs := a.scale_le
  rw [quanta, coefficient_eq_signed, show 56 - a.scale = 28 - a.scale + 28 by omega, tens_add]
  push_cast
  ring

/-- **A number that is a decimal is not rounded.** -/
@[simp] theorem nearest?_quanta (a : Decimal) : nearest? (a.quanta * tens 28) = some a.quanta := by
  have hs := a.scale_le
  rw [quanta_mul_tens, ← map_quanta_fit? _ _ (by omega), fit?_of_fits _ a.mantissa_lt hs]
  rfl

theorem quanta_of_mantissa_eq_zero {a : Decimal} (h : a.mantissa = 0) : a.quanta = 0 := by
  rw [quanta, coefficient, h]
  simp

/-- Without its sign, the value counts the mantissa. -/
theorem natAbs_quanta (a : Decimal) : a.quanta.natAbs = a.mantissa * tens (28 - a.scale) := by
  rw [quanta, coefficient_eq_signed, Int.natAbs_mul, Int.natAbs_natCast]
  unfold signed
  cases a.negative <;> simp

/-- **A sum is the exact sum, rounded.** -/
theorem map_quanta_add? (a b : Decimal) :
    (add? a b).map quanta = nearest? ((a.quanta + b.quanta) * tens 28) := by
  unfold add?
  split
  · rename_i ha
    rw [quanta_of_mantissa_eq_zero ha, Int.zero_add, nearest?_quanta, Option.map_some]
  · split
    · rename_i hb
      rw [quanta_of_mantissa_eq_zero hb, Int.add_zero, nearest?_quanta, Option.map_some]
    · have hsa := a.scale_le
      have hsb := b.scale_le
      dsimp only
      generalize hs : max a.scale b.scale = s
      generalize hn : a.coefficient * (tens (s - a.scale) : Int)
        + b.coefficient * (tens (s - b.scale) : Int) = n
      -- both summands brought to the common scale, and from there to `10^-56`
      have hsum : (a.quanta + b.quanta) * (tens 28 : Int) = n * tens (56 - s) := by
        have h28 : tens (56 - s) = tens (28 - s) * tens 28 := by
          rw [← tens_add]
          congr 1
          omega
        have hqa : tens (28 - a.scale) = tens (s - a.scale) * tens (28 - s) := by
          rw [← tens_add]
          congr 1
          omega
        have hqb : tens (28 - b.scale) = tens (s - b.scale) * tens (28 - s) := by
          rw [← tens_add]
          congr 1
          omega
        rw [← hn, quanta, quanta, h28, hqa, hqb]
        push_cast
        ring
      have hsigned : signed (decide (n < 0)) n.natAbs = n := by
        unfold signed
        by_cases h : n < 0
        · rw [decide_eq_true h, if_pos rfl]
          omega
        · rw [decide_eq_false h, if_neg (by decide)]
          omega
      rw [map_quanta_fit? _ _ (by omega), hsigned, hsum]

/-- **A difference is the exact difference, rounded.** -/
theorem map_quanta_sub? (a b : Decimal) :
    (sub? a b).map quanta = nearest? ((a.quanta - b.quanta) * tens 28) := by
  unfold sub?
  split
  · rename_i ha
    rw [quanta_of_mantissa_eq_zero ha, Int.zero_sub]
    split
    · rename_i hb
      rw [Option.map_some, quanta_of_mantissa_eq_zero hb]
      simp
    · rw [← quanta_neg, nearest?_quanta, Option.map_some]
  · split
    · rename_i hb
      rw [quanta_of_mantissa_eq_zero hb, Int.sub_zero, nearest?_quanta, Option.map_some]
    · rw [map_quanta_add?, quanta_neg, ← Int.sub_eq_add_neg]

theorem signed_mul (p q : Bool) (m n : Nat) :
    signed p m * signed q n = signed (p != q) (m * n) := by
  unfold signed
  cases p <;> cases q <;> simp

/-- A product of two short mantissas with more than 47 places has no quanta
left: it is below half a quantum. -/
theorem map_quanta_fit?_of_short (negative : Bool) {m s : Nat} (hm : m < 0x10000000000000000)
    (hlow : 48 ≤ s) (hs : s ≤ 56) : (fit? negative m s).map quanta = some 0 := by
  have hzero : divHalfEven m (tens (s - 28)) = 0 := by
    have ht : tens 20 ≤ tens (s - 28) := tens_le_tens (by omega)
    have h20 : tens 20 = 100000000000000000000 := rfl
    have hlt : m < tens (s - 28) := by omega
    unfold divHalfEven
    rw [Nat.mod_eq_of_lt hlt, Nat.div_eq_of_lt hlt, if_pos (by omega)]
  obtain ⟨c, hc⟩ := exists_fit? negative (m := m) (s := s) (k := s - 28) (Nat.le_refl _)
    (by omega) (by rw [hzero]; decide)
  obtain ⟨k, hk, -, -, hcm, -, hfirst⟩ := fit?_eq_some hc
  have hks : k = s - 28 := by
    by_contra hne
    have := hfirst (s - 28) (Nat.le_refl _) (by omega)
    rw [hzero] at this
    exact absurd this (by decide)
  rw [hks, hzero] at hcm
  rw [hc, Option.map_some, quanta_of_mantissa_eq_zero hcm]

/-- **A product is the exact product, rounded.** -/
theorem map_quanta_mul? (a b : Decimal) :
    (mul? a b).map quanta = nearest? (a.quanta * b.quanta) := by
  have hsa := a.scale_le
  have hsb := b.scale_le
  have hexact : a.quanta * b.quanta
      = signed (a.negative != b.negative) (a.mantissa * b.mantissa)
        * tens (56 - (a.scale + b.scale)) := by
    rw [← signed_mul, quanta, quanta, coefficient_eq_signed, coefficient_eq_signed,
      show 56 - (a.scale + b.scale) = (28 - a.scale) + (28 - b.scale) by omega, tens_add]
    push_cast
    ring
  unfold mul?
  split
  · rename_i hzero
    have : a.quanta * b.quanta = 0 := by
      cases hzero with
      | inl ha => rw [quanta_of_mantissa_eq_zero ha, Int.zero_mul]
      | inr hb => rw [quanta_of_mantissa_eq_zero hb, Int.mul_zero]
    rw [this, nearest?_zero]
    rfl
  · split
    · rename_i hshort
      obtain ⟨hshort, hplaces⟩ := hshort
      unfold bothShort at hshort
      simp only [Bool.and_eq_true, decide_eq_true_eq] at hshort
      have hm : a.mantissa * b.mantissa < 0x10000000000000000 :=
        Nat.mul_lt_mul'' hshort.1 hshort.2
      rw [hexact, ← map_quanta_fit? _ _ (by omega),
        map_quanta_fit?_of_short _ hm (by omega) (by omega)]
      rfl
    · rw [hexact, ← map_quanta_fit? _ _ (by omega), Option.map_map]
      refine congrArg (Option.map · _) (funext fun c => ?_)
      -- a zero that loses its sign is still a zero
      rw [Function.comp_apply]
      split
      · rename_i hz
        simp only [Bool.and_eq_true, beq_iff_eq] at hz
        rw [quanta_of_mantissa_eq_zero hz.2, quanta_of_mantissa_eq_zero (by exact hz.2)]
      · rfl

/-- The sum that there is, is the exact sum rounded. -/
theorem nearest?_of_add? {a b c : Decimal} (h : add? a b = some c) :
    nearest? ((a.quanta + b.quanta) * tens 28) = some c.quanta := by
  rw [← map_quanta_add?, h, Option.map_some]

/-- The difference that there is, is the exact difference rounded. -/
theorem nearest?_of_sub? {a b c : Decimal} (h : sub? a b = some c) :
    nearest? ((a.quanta - b.quanta) * tens 28) = some c.quanta := by
  rw [← map_quanta_sub?, h, Option.map_some]

/-- Where the exact sum can be rounded, there is a sum. -/
theorem exists_add? {a b : Decimal} {q : Int}
    (h : nearest? ((a.quanta + b.quanta) * tens 28) = some q) :
    ∃ c, add? a b = some c ∧ c.quanta = q :=
  Option.map_eq_some_iff.mp ((map_quanta_add? a b).trans h)

/-- Where the exact difference can be rounded, there is a difference. -/
theorem exists_sub? {a b : Decimal} {q : Int}
    (h : nearest? ((a.quanta - b.quanta) * tens 28) = some q) :
    ∃ c, sub? a b = some c ∧ c.quanta = q :=
  Option.map_eq_some_iff.mp ((map_quanta_sub? a b).trans h)

/-- The product that there is, is the exact product rounded. -/
theorem nearest?_of_mul? {a b c : Decimal} (h : mul? a b = some c) :
    nearest? (a.quanta * b.quanta) = some c.quanta := by
  rw [← map_quanta_mul?, h, Option.map_some]

/-- Where the exact product can be rounded, there is a product. -/
theorem exists_mul? {a b : Decimal} {q : Int} (h : nearest? (a.quanta * b.quanta) = some q) :
    ∃ c, mul? a b = some c ∧ c.quanta = q :=
  Option.map_eq_some_iff.mp ((map_quanta_mul? a b).trans h)

/-! ## What rounding keeps -/

/-- **What `nearest?` finds**: some places of the 56 are dropped, at least those
beyond the 28th, and fewer would not have done. -/
theorem nearest?_eq_some {n q : Int} (h : nearest? n = some q) :
    ∃ k, 28 ≤ k ∧ k ≤ 56 ∧
      q = signed (decide (n < 0)) (divHalfEven n.natAbs (tens k)) * tens (k - 28) ∧
      ∀ j, 28 ≤ j → j < k → mantissaBound ≤ divHalfEven n.natAbs (tens j) := by
  obtain ⟨c, hc, rfl⟩ := Option.map_eq_some_iff.mp h
  obtain ⟨k, hlow, hhigh, hneg, hm, hs, hfirst⟩ := fit?_eq_some hc
  refine ⟨k, by omega, hhigh, ?_, fun j hj hjk => hfirst j (by omega) hjk⟩
  rw [quanta, coefficient_eq_signed, hneg, hm, hs, show 28 - (56 - k) = k - 28 by omega]

/-- Rounding does not turn a number negative. -/
theorem nearest?_nonneg {n q : Int} (h : nearest? n = some q) (hn : 0 ≤ n) : 0 ≤ q := by
  obtain ⟨k, -, -, rfl, -⟩ := nearest?_eq_some h
  rw [decide_eq_false (by omega), signed, if_neg (by decide)]
  exact_mod_cast Nat.zero_le _

/-- Rounding does not turn a number positive. -/
theorem nearest?_nonpos {n q : Int} (h : nearest? n = some q) (hn : n ≤ 0) : q ≤ 0 := by
  by_cases hz : n = 0
  · rw [hz, nearest?_zero] at h
    exact Int.le_of_eq (Option.some.inj h).symm
  · obtain ⟨k, -, -, rfl, -⟩ := nearest?_eq_some h
    rw [decide_eq_true (by omega), signed, if_pos rfl, Int.neg_mul, Int.neg_nonpos_iff]
    exact_mod_cast Nat.zero_le _

/-- A product of numbers that are not negative is not negative. -/
theorem mul?_nonneg {a b c : Decimal} (h : mul? a b = some c) (ha : 0 ≤ a.quanta)
    (hb : 0 ≤ b.quanta) : 0 ≤ c.quanta :=
  nearest?_nonneg (nearest?_of_mul? h) (Int.mul_nonneg ha hb)

/-- **A sum that is not zero does not round to zero**: whole quanta are rounded
only where they are too many for a mantissa, and then plenty are left. -/
theorem nearest?_tens_ne_zero {n q : Int} (h : nearest? (n * tens 28) = some q) (hn : n ≠ 0) :
    q ≠ 0 := by
  obtain ⟨k, hlow, -, rfl, hfirst⟩ := nearest?_eq_some h
  have habs : (n * (tens 28 : Int)).natAbs = n.natAbs * tens 28 := by
    rw [Int.natAbs_mul, Int.natAbs_natCast]
  have hpos : 0 < divHalfEven (n.natAbs * tens 28) (tens k) := by
    by_cases hk : k = 28
    · rw [hk, divHalfEven_mul _ _ (tens_pos 28)]
      exact Int.natAbs_pos.mpr hn
    · obtain ⟨j, rfl⟩ : ∃ j, k = j + 1 := ⟨k - 1, by omega⟩
      have hj := hfirst j (by omega) (by omega)
      rw [habs] at hj
      have hup := divHalfEven_le_div_add_one (n.natAbs * tens 28) (tens j)
      have hdown := div_le_divHalfEven (n.natAbs * tens 28) (tens (j + 1))
      rw [tens_succ j, ← Nat.div_div_eq_div_mul] at hdown
      rw [tens_succ j]
      unfold mantissaBound at hj
      omega
  have ht := tens_pos (k - 28)
  rw [habs]
  refine Int.mul_ne_zero (fun hz => ?_) (by omega)
  unfold signed at hz
  split at hz <;> omega

/-- A number that is not negative counts its mantissa. -/
theorem quanta_of_nonneg {a : Decimal} (h : 0 ≤ a.quanta) :
    a.quanta = ((a.mantissa * tens (28 - a.scale) : Nat) : Int) := by
  have ht : (0 : Int) < tens (28 - a.scale) := Int.natCast_pos.mpr (tens_pos _)
  rw [quanta, coefficient] at h ⊢
  push_cast
  split
  · rename_i hneg
    rw [if_pos hneg] at h
    have hzero : a.mantissa = 0 := by
      by_contra hne
      have : -(a.mantissa : Int) * tens (28 - a.scale) < 0 :=
        Int.mul_neg_of_neg_of_pos (by omega) ht
      omega
    rw [hzero]
    simp
  · rfl

/-- **What lies between zero and a decimal** is rounded, and to something that
lies between them, too. -/
theorem nearest?_of_le {n : Int} {b : Decimal} (h0 : 0 ≤ n) (hb : n ≤ b.quanta * tens 28) :
    ∃ q, nearest? n = some q ∧ 0 ≤ q ∧ q ≤ b.quanta := by
  have hs := b.scale_le
  have hnonneg : 0 ≤ b.quanta := by
    by_contra hneg
    have : b.quanta * (tens 28 : Int) < 0 :=
      Int.mul_neg_of_neg_of_pos (by omega) (Int.natCast_pos.mpr (tens_pos 28))
    omega
  obtain ⟨m, rfl⟩ := Int.eq_ofNat_of_zero_le h0
  have hm : m ≤ b.mantissa * tens (56 - b.scale) := by
    rw [quanta_of_nonneg hnonneg] at hb
    rw [show 56 - b.scale = 28 - b.scale + 28 by omega, tens_add, ← Nat.mul_assoc]
    exact_mod_cast hb
  have hfits : divHalfEven m (tens (56 - b.scale)) < mantissaBound :=
    Nat.lt_of_le_of_lt (divHalfEven_le (tens_pos _) hm) b.mantissa_lt
  obtain ⟨c, hc⟩ := exists_fit? (decide ((m : Int) < 0)) (m := m) (s := 56) (by omega)
    (by omega) hfits
  have hq : nearest? (m : Int) = some c.quanta := by
    rw [nearest?, Int.natAbs_natCast, hc, Option.map_some]
  refine ⟨c.quanta, hq, nearest?_nonneg hq h0, ?_⟩
  obtain ⟨k, hlow, hhigh, hck, hfirst⟩ := nearest?_eq_some hq
  rw [Int.natAbs_natCast] at hck hfirst
  -- the places of `b` are kept, so `b` is a bound on the grid that is rounded to
  have hk : k ≤ 56 - b.scale := by
    by_contra hlt
    have := hfirst (56 - b.scale) (by omega) (by omega)
    omega
  have hdigits : divHalfEven m (tens k) ≤ b.mantissa * tens (56 - b.scale - k) := by
    refine divHalfEven_le (tens_pos k) ?_
    rwa [Nat.mul_assoc, ← tens_add, show 56 - b.scale - k + k = 56 - b.scale by omega]
  rw [hck, quanta_of_nonneg hnonneg, decide_eq_false (by omega), signed, if_neg (by decide),
    show 28 - b.scale = 56 - b.scale - k + (k - 28) by omega, tens_add, ← Nat.mul_assoc]
  exact_mod_cast Nat.mul_le_mul_right (tens (k - 28)) hdigits

/-- What can be rounded can be rounded with the other sign. -/
theorem exists_nearest?_neg {n q : Int} (h : nearest? n = some q) :
    ∃ q', nearest? (-n) = some q' := by
  obtain ⟨c, hc, -⟩ := Option.map_eq_some_iff.mp h
  obtain ⟨k, hlow, hhigh, -, hm, -⟩ := fit?_eq_some hc
  obtain ⟨c', hc'⟩ := exists_fit? (decide (-n < 0)) hlow hhigh (hm ▸ c.mantissa_lt)
  refine ⟨c'.quanta, ?_⟩
  rw [nearest?, Int.natAbs_neg, hc', Option.map_some]

/-! ## The operations that may overflow -/

theorem plus_eq_ok {a b c : Decimal} : a.plus b = .ok c ↔ add? a b = some c :=
  Outcome.orOverflow_eq_ok

theorem minus_eq_ok {a b c : Decimal} : a.minus b = .ok c ↔ sub? a b = some c :=
  Outcome.orOverflow_eq_ok

theorem times_eq_ok {a b c : Decimal} : a.times b = .ok c ↔ mul? a b = some c :=
  Outcome.orOverflow_eq_ok

/-- **The sum of a number above and one below zero** is in range: it is closer to
zero than one of them. -/
theorem exists_plus_of_opposite {a b : Decimal} (ha : 0 ≤ a.quanta) (hb : b.quanta ≤ 0) :
    ∃ c, a.plus b = .ok c := by
  have ht : (0 : Int) ≤ tens 28 := Int.natCast_nonneg _
  suffices ∃ q, nearest? ((a.quanta + b.quanta) * tens 28) = some q by
    obtain ⟨q, hq⟩ := this
    obtain ⟨c, hc, -⟩ := exists_add? hq
    exact ⟨c, plus_eq_ok.mpr hc⟩
  by_cases hsum : 0 ≤ a.quanta + b.quanta
  · obtain ⟨q, hq, -⟩ := nearest?_of_le (b := a) (Int.mul_nonneg hsum ht)
      (Int.mul_le_mul_of_nonneg_right (by omega) ht)
    exact ⟨q, hq⟩
  · obtain ⟨q, hq, -⟩ := nearest?_of_le (n := -((a.quanta + b.quanta) * tens 28)) (b := -b)
      (by rw [← Int.neg_mul]; exact Int.mul_nonneg (by omega) ht)
      (by rw [← Int.neg_mul, quanta_neg]; exact Int.mul_le_mul_of_nonneg_right (by omega) ht)
    obtain ⟨q', hq'⟩ := exists_nearest?_neg hq
    exact ⟨q', by rwa [Int.neg_neg] at hq'⟩

/-- **What is no more than there is** can be taken. -/
theorem exists_minus_of_le {a b : Decimal} (hb : 0 ≤ b.quanta) (hle : b.quanta ≤ a.quanta) :
    ∃ c, a.minus b = .ok c := by
  have ht : (0 : Int) ≤ tens 28 := Int.natCast_nonneg _
  obtain ⟨q, hq, -⟩ := nearest?_of_le (b := a) (Int.mul_nonneg (by omega) ht)
    (Int.mul_le_mul_of_nonneg_right (show a.quanta - b.quanta ≤ a.quanta by omega) ht)
  obtain ⟨c, hc, -⟩ := exists_sub? hq
  exact ⟨c, minus_eq_ok.mpr hc⟩

/-- **A sum has the sign of the exact sum.** -/
theorem sign_of_plus {a b c : Decimal} (h : a.plus b = .ok c) :
    a.quanta + b.quanta < 0 ∧ c.quanta < 0 ∨ a.quanta + b.quanta = 0 ∧ c.quanta = 0 ∨
      0 < a.quanta + b.quanta ∧ 0 < c.quanta := by
  have hn := nearest?_of_add? (plus_eq_ok.mp h)
  have ht : (0 : Int) < tens 28 := Int.natCast_pos.mpr (tens_pos 28)
  rcases Int.lt_trichotomy (a.quanta + b.quanta) 0 with hlt | heq | hgt
  · have hle := nearest?_nonpos hn (Int.le_of_lt (Int.mul_neg_of_neg_of_pos hlt ht))
    have hne := nearest?_tens_ne_zero hn (by omega)
    omega
  · rw [heq, Int.zero_mul, nearest?_zero] at hn
    have := Option.some.inj hn
    omega
  · have hle := nearest?_nonneg hn (Int.le_of_lt (Int.mul_pos hgt ht))
    have hne := nearest?_tens_ne_zero hn (by omega)
    omega

/-- Numbers of equal value have sums of equal value. -/
theorem same_of_plus {a b c a' b' c' : Decimal} (ha : a.Same a') (hb : b.Same b')
    (h : a.plus b = .ok c) (h' : a'.plus b' = .ok c') : c.Same c' := by
  rw [same_def] at ha hb ⊢
  have hn := nearest?_of_add? (plus_eq_ok.mp h)
  rw [ha, hb, nearest?_of_add? (plus_eq_ok.mp h')] at hn
  exact (Option.some.inj hn).symm

end Decimal

end StakeAccounting

import StakeAccounting.Proofs.Decimal.Nearest

/-!
# The decimal nearest a ratio

A quotient of two decimals is seldom a decimal, and it is not a whole number of
any unit either. So the rounding of `Decimal.nearest?` is stated here once more,
for any ratio `n / d` of quanta: `nearestRatio?` keeps as many of the 28 places as
leave a mantissa, and rounds what is dropped half to even. Sums and products are
the ratios with a power of ten below (`nearest?_eq_nearestRatio?`).

What makes this rounding useful is that it **keeps the order**, although the
number of places that are kept changes from one ratio to the next: a greater ratio
is never rounded to less (`saturatedRatio_le_saturatedRatio`), where a ratio out of
range counts as the greatest decimal. Together with the fact that decimals stay as
they are (`nearestRatio?_mul`), most of what is to know about a rounded result
follows from the exact one.
-/

namespace StakeAccounting

/-! ## Half to even keeps the order -/

/-- **Where half to even reaches a number**: the quotient lies above the middle
before it, or on that middle, and the number is even. -/
theorem lt_divHalfEven_iff {n d q : Nat} (hd : 0 < d) :
    q < divHalfEven n d ↔ (2 * q + 1) * d < 2 * n ∨ (2 * q + 1) * d = 2 * n ∧ q % 2 = 1 := by
  have hn := Nat.div_add_mod n d
  have hr := Nat.mod_lt n hd
  unfold divHalfEven
  generalize n / d = whole at hn
  generalize n % d = rest at hn hr
  have htwice : 2 * n = 2 * (d * whole) + 2 * rest := by omega
  have hmiddle : (2 * q + 1) * d = 2 * (d * q) + d := by ring
  rw [htwice, hmiddle]
  rcases Nat.lt_trichotomy q whole with hlt | rfl | hgt
  · have hstep : d * (q + 1) ≤ d * whole := Nat.mul_le_mul_left d hlt
    rw [Nat.mul_add, Nat.mul_one] at hstep
    split
    · omega
    · split <;> omega
  · split
    · omega
    · split <;> omega
  · have hstep : d * (whole + 1) ≤ d * q := Nat.mul_le_mul_left d hgt
    rw [Nat.mul_add, Nat.mul_one] at hstep
    split
    · omega
    · split <;> omega

/-- **Half to even keeps the order** of quotients. -/
theorem divHalfEven_le_divHalfEven {n d m e : Nat} (hd : 0 < d) (he : 0 < e)
    (h : n * e ≤ m * d) : divHalfEven n d ≤ divHalfEven m e := by
  by_contra hlt
  have hmiddle := (lt_divHalfEven_iff hd).mp (Nat.lt_of_not_le hlt)
  refine absurd ((lt_divHalfEven_iff (q := divHalfEven m e) he).mpr ?_) (Nat.lt_irrefl _)
  generalize divHalfEven m e = q at hmiddle
  -- the middle is compared with both quotients over the common divisor `d * e`
  have hcross : 2 * n * e ≤ 2 * m * d := by
    rw [Nat.mul_assoc, Nat.mul_assoc]
    exact Nat.mul_le_mul_left 2 h
  rcases hmiddle with hlow | ⟨heq, hodd⟩
  · refine Or.inl (Nat.lt_of_mul_lt_mul_right (a := d) ?_)
    calc (2 * q + 1) * e * d = (2 * q + 1) * d * e := by ring
      _ < 2 * n * e := Nat.mul_lt_mul_of_pos_right hlow he
      _ ≤ 2 * m * d := hcross
  · have hle : (2 * q + 1) * e ≤ 2 * m := by
      refine Nat.le_of_mul_le_mul_right (c := d) ?_ hd
      calc (2 * q + 1) * e * d = (2 * q + 1) * d * e := by ring
        _ = 2 * n * e := by rw [heq]
        _ ≤ 2 * m * d := hcross
    rcases Nat.lt_or_eq_of_le hle with hlt | heq
    · exact Or.inl hlt
    · exact Or.inr ⟨heq, hodd⟩

/-- **Half to even is off by half a unit** at most. -/
theorem two_mul_divHalfEven_le (n d : Nat) : 2 * (divHalfEven n d * d) ≤ 2 * n + d := by
  have hn := Nat.div_add_mod n d
  unfold divHalfEven
  generalize n / d = whole at hn
  generalize n % d = rest at hn
  have hone : (whole + 1) * d = d * whole + d := by ring
  have hzero : whole * d = d * whole := Nat.mul_comm whole d
  split
  · omega
  · split
    · omega
    · rcases Nat.mod_two_eq_zero_or_one whole with heven | hodd
      · rw [heven, Nat.add_zero]
        omega
      · rw [hodd]
        omega

namespace Decimal

/-! ## Rounding a ratio -/

/-- The digits that are left of `n / d` quanta when `k` places are dropped. -/
def digitsAt (n d k : Nat) : Nat := divHalfEven n (d * tens k)

/-- **The quanta of the decimal nearest `n / d` quanta**, if it is in range: as few
of the 28 places are dropped as leave a mantissa. -/
def nearestRatio? (n d : Nat) : Option Nat :=
  (List.range' 0 29).findSome? fun k =>
    if digitsAt n d k < mantissaBound then some (digitsAt n d k * tens k) else none

/-- The quanta of the greatest decimal. -/
def greatestQuanta : Nat := (mantissaBound - 1) * tens 28

variable {n d m e q j k : Nat}

theorem digitsAt_le_digitsAt (hd : 0 < d) (he : 0 < e) (h : n * e ≤ m * d) (k : Nat) :
    digitsAt n d k ≤ digitsAt m e k := by
  refine divHalfEven_le_divHalfEven (Nat.mul_pos hd (tens_pos k)) (Nat.mul_pos he (tens_pos k)) ?_
  rw [← Nat.mul_assoc, ← Nat.mul_assoc]
  exact Nat.mul_le_mul_right (tens k) h

/-- Dropping more places leaves no more digits. -/
theorem digitsAt_antitone (hd : 0 < d) (h : j ≤ k) : digitsAt n d k ≤ digitsAt n d j :=
  divHalfEven_le_divHalfEven (Nat.mul_pos hd (tens_pos k)) (Nat.mul_pos hd (tens_pos j))
    (Nat.mul_le_mul_left n (Nat.mul_le_mul_left d (tens_le_tens h)))

/-- A factor that dividend and divisor share leaves the digits as they are. -/
theorem digitsAt_mul_mul {c : Nat} (hc : 0 < c) : digitsAt (n * c) (d * c) k = digitsAt n d k := by
  unfold digitsAt
  rw [show d * c * tens k = d * tens k * c by ring, divHalfEven_mul_mul _ _ hc]

/-- **What `nearestRatio?` finds**: some of the 28 places are dropped, and fewer would
not have done. -/
theorem nearestRatio?_eq_some (h : nearestRatio? n d = some q) :
    ∃ k, k ≤ 28 ∧ q = digitsAt n d k * tens k ∧ digitsAt n d k < mantissaBound ∧
      ∀ j, j < k → mantissaBound ≤ digitsAt n d j := by
  obtain ⟨k, -, hk, hfound, hfirst⟩ := findSome?_range'_eq_some h
  have hfit : digitsAt n d k < mantissaBound := by
    by_contra hno
    rw [if_neg hno] at hfound
    cases hfound
  rw [if_pos hfit] at hfound
  refine ⟨k, by omega, (Option.some.inj hfound).symm, hfit, fun j hj => ?_⟩
  by_contra hfits
  have hnone := hfirst j (Nat.zero_le j) hj
  rw [if_pos (Nat.lt_of_not_le hfits)] at hnone
  cases hnone

/-- Where dropping some places leaves a mantissa, there is a nearest decimal. -/
theorem exists_nearestRatio? (hk : k ≤ 28) (hfit : digitsAt n d k < mantissaBound) :
    ∃ q, nearestRatio? n d = some q := by
  cases h : nearestRatio? n d with
  | some q => exact ⟨q, rfl⟩
  | none =>
    have hnone := List.findSome?_eq_none_iff.mp h k (by rw [List.mem_range'_1]; omega)
    rw [if_pos hfit] at hnone
    cases hnone

/-- **The nearest decimal by its places**: they leave a mantissa, and one place more
would not. -/
theorem nearestRatio?_of_digitsAt (hd : 0 < d) (hk : k ≤ 28) (hfit : digitsAt n d k < mantissaBound)
    (hmore : k = 0 ∨ mantissaBound ≤ digitsAt n d (k - 1)) :
    nearestRatio? n d = some (digitsAt n d k * tens k) := by
  obtain ⟨q, hq⟩ := exists_nearestRatio? hk hfit
  obtain ⟨j, -, rfl, hj, hfirst⟩ := nearestRatio?_eq_some hq
  have hjk : j ≤ k := by
    by_contra hlt
    have := hfirst k (by omega)
    omega
  have hkj : k ≤ j := by
    by_contra hlt
    have hfewer := digitsAt_antitone (n := n) hd (show j ≤ k - 1 by omega)
    omega
  rw [hq, Nat.le_antisymm hjk hkj]

/-- **A ratio is out of range** where no place behind the point is kept and the digits are
still too many. -/
theorem nearestRatio?_eq_none_iff (hd : 0 < d) :
    nearestRatio? n d = none ↔ mantissaBound ≤ digitsAt n d 28 := by
  constructor
  · intro h
    by_contra hfit
    obtain ⟨q, hq⟩ := exists_nearestRatio? (Nat.le_refl 28) (Nat.lt_of_not_le hfit)
    rw [h] at hq
    cases hq
  · intro hmany
    by_contra hsome
    obtain ⟨q, hq⟩ := Option.ne_none_iff_exists'.mp hsome
    obtain ⟨k, hk, -, hfit, -⟩ := nearestRatio?_eq_some hq
    have := digitsAt_antitone (n := n) hd hk
    omega

/-- **Where the range ends**: a ratio of quanta is out of range from the middle behind the greatest
decimal on. The middle itself goes up, since the greatest mantissa is odd. -/
theorem nearestRatio?_tens_eq_none_iff (hd : 0 < d) :
    nearestRatio? (n * tens 28) d = none ↔ (2 * (mantissaBound - 1) + 1) * d ≤ 2 * n := by
  have hodd : (mantissaBound - 1) % 2 = 1 := by decide
  rw [nearestRatio?_eq_none_iff hd, digitsAt, divHalfEven_mul_mul _ _ (tens_pos 28)]
  calc mantissaBound ≤ divHalfEven n d
      ↔ mantissaBound - 1 < divHalfEven n d := Nat.succ_le_iff
    _ ↔ (2 * (mantissaBound - 1) + 1) * d ≤ 2 * n := by
        rw [lt_divHalfEven_iff hd, hodd, Nat.le_iff_lt_or_eq, and_iff_left rfl]

/-- **A decimal stays as it is.** -/
theorem nearestRatio?_mul (hd : 0 < d) (hm : m < mantissaBound) (hk : k ≤ 28) :
    nearestRatio? (m * tens k * d) d = some (m * tens k) := by
  have hdigits : ∀ j, j ≤ k → digitsAt (m * tens k * d) d j = m * tens (k - j) := by
    intro j hj
    unfold digitsAt
    rw [show m * tens k * d = m * tens (k - j) * (d * tens j) by
      rw [← Nat.sub_add_cancel hj, tens_add, Nat.add_sub_cancel]; ring,
      divHalfEven_mul _ _ (Nat.mul_pos hd (tens_pos j))]
  have hfits : digitsAt (m * tens k * d) d k < mantissaBound := by
    rw [hdigits k (Nat.le_refl k), Nat.sub_self, tens_zero, Nat.mul_one]
    exact hm
  obtain ⟨q, hq⟩ := exists_nearestRatio? hk hfits
  obtain ⟨j, -, rfl, -, hfirst⟩ := nearestRatio?_eq_some hq
  have hjk : j ≤ k := by
    by_contra hlt
    have := hfirst k (by omega)
    omega
  rw [hq, hdigits j hjk, Nat.mul_assoc, ← tens_add, Nat.sub_add_cancel hjk]

theorem nearestRatio?_zero (hd : 0 < d) : nearestRatio? 0 d = some 0 := by
  have h := nearestRatio?_mul (m := 0) (k := 0) hd (by decide) (by decide)
  rwa [Nat.zero_mul, Nat.zero_mul] at h

/-- A factor that dividend and divisor share changes nothing. -/
theorem nearestRatio?_mul_mul {c : Nat} (hc : 0 < c) :
    nearestRatio? (n * c) (d * c) = nearestRatio? n d := by
  unfold nearestRatio?
  simp only [digitsAt_mul_mul hc]

/-! ## Rounding keeps the order -/

/-- **A ratio of quanta as a decimal**, the greatest one where it is out of range. -/
def saturatedRatio (n d : Nat) : Nat := (nearestRatio? n d).getD greatestQuanta

theorem saturatedRatio_of_some (h : nearestRatio? n d = some q) : saturatedRatio n d = q := by
  rw [saturatedRatio, h, Option.getD_some]

/-- No decimal is greater than the greatest. -/
theorem le_greatestQuanta (hm : m < mantissaBound) (hk : k ≤ 28) : m * tens k ≤ greatestQuanta :=
  Nat.mul_le_mul (Nat.le_sub_one_of_lt hm) (tens_le_tens hk)

theorem saturatedRatio_le_greatest (n d : Nat) : saturatedRatio n d ≤ greatestQuanta := by
  unfold saturatedRatio
  cases h : nearestRatio? n d with
  | none => exact Nat.le_refl _
  | some q =>
    obtain ⟨k, hk, rfl, hfit, -⟩ := nearestRatio?_eq_some h
    exact le_greatestQuanta hfit hk

/-- Where the digits are too many for a mantissa, one place less leaves a tenth of them,
and no less for the rounding. -/
theorem mantissaBound_le_digitsAt_succ (hd : 0 < d) (h : mantissaBound ≤ digitsAt n d j) :
    mantissaBound ≤ digitsAt n d (j + 1) * 10 := by
  have hreach : mantissaBound - 1 < digitsAt n d j := Nat.lt_of_lt_of_le (by decide) h
  have hmiddle : (2 * (mantissaBound - 1) + 1) * (d * tens j) ≤ 2 * n :=
    ((lt_divHalfEven_iff (Nat.mul_pos hd (tens_pos j))).mp hreach).elim Nat.le_of_lt
      fun h => Nat.le_of_eq h.1
  -- a tenth of the bound, rounded half to even, is reached as well
  have htenth : 7922816251426433759354395033 < digitsAt n d (j + 1) := by
    have hten : d * tens (j + 1) = d * tens j * 10 := by rw [tens_succ, Nat.mul_assoc]
    have hpos := Nat.mul_pos hd (tens_pos j)
    have hbound : mantissaBound = 79228162514264337593543950336 := rfl
    refine (lt_divHalfEven_iff (Nat.mul_pos hd (tens_pos (j + 1)))).mpr (Or.inl ?_)
    rw [hten]
    rw [hbound] at hmiddle
    omega
  exact Nat.le_trans (by decide) (Nat.mul_le_mul_right 10 htenth)

/-- **Rounding keeps the order**: a greater ratio is not rounded to less, however many
places are kept of each. -/
theorem saturatedRatio_le_saturatedRatio (hd : 0 < d) (he : 0 < e) (h : n * e ≤ m * d) :
    saturatedRatio n d ≤ saturatedRatio m e := by
  cases hm : nearestRatio? m e with
  | none =>
    rw [saturatedRatio, saturatedRatio, hm, Option.getD_none]
    exact saturatedRatio_le_greatest n d
  | some q =>
    obtain ⟨k, hk, rfl, hfit, hfirst⟩ := nearestRatio?_eq_some hm
    have hbelow := digitsAt_le_digitsAt hd he h k
    obtain ⟨p, hp⟩ := exists_nearestRatio? hk (Nat.lt_of_le_of_lt hbelow hfit)
    rw [saturatedRatio_of_some hm, saturatedRatio_of_some hp]
    obtain ⟨j, hj, rfl, hjfit, hjfirst⟩ := nearestRatio?_eq_some hp
    have hjk : j ≤ k := by
      by_contra hlt
      have := hjfirst k (by omega)
      omega
    rcases Nat.lt_or_eq_of_le hjk with hlt | rfl
    · -- more places are kept of the smaller ratio, which is then below a power of ten
      -- that the greater one reaches
      have htenth := mantissaBound_le_digitsAt_succ he (hfirst (k - 1) (by omega))
      rw [Nat.sub_add_cancel (by omega)] at htenth
      calc digitsAt n d j * tens j ≤ mantissaBound * tens (k - 1) :=
            Nat.mul_le_mul (Nat.le_of_lt hjfit) (tens_le_tens (by omega))
        _ ≤ digitsAt m e k * 10 * tens (k - 1) := Nat.mul_le_mul_right _ htenth
        _ = digitsAt m e k * tens (k - 1 + 1) := by rw [tens_succ]; ring
        _ = digitsAt m e k * tens k := by rw [Nat.sub_add_cancel (by omega)]
    · exact Nat.mul_le_mul_right (tens j) hbelow

/-- What is at most a decimal is rounded to at most that decimal. -/
theorem nearestRatio?_le (hd : 0 < d) (hm : m < mantissaBound) (hk : k ≤ 28)
    (h : n ≤ m * tens k * d) : ∃ q, nearestRatio? n d = some q ∧ q ≤ m * tens k := by
  have hself := nearestRatio?_mul (d := 1) Nat.one_pos hm hk
  have hle := saturatedRatio_le_saturatedRatio hd Nat.one_pos
    (show n * 1 ≤ m * tens k * 1 * d by rwa [Nat.mul_one, Nat.mul_one])
  rw [saturatedRatio_of_some hself] at hle
  have hdigits : digitsAt n d k < mantissaBound := by
    refine Nat.lt_of_le_of_lt (divHalfEven_le (Nat.mul_pos hd (tens_pos k)) ?_) hm
    rwa [Nat.mul_comm d, ← Nat.mul_assoc]
  obtain ⟨q, hq⟩ := exists_nearestRatio? hk hdigits
  rw [saturatedRatio_of_some hq] at hle
  exact ⟨q, hq, hle⟩

/-- What is at least a decimal is rounded to at least that decimal. -/
theorem le_of_nearestRatio? (hd : 0 < d) (hm : m < mantissaBound) (hk : k ≤ 28)
    (h : m * tens k * d ≤ n) (hq : nearestRatio? n d = some q) : m * tens k ≤ q := by
  have hself := nearestRatio?_mul (d := 1) Nat.one_pos hm hk
  have hle := saturatedRatio_le_saturatedRatio Nat.one_pos hd
    (show m * tens k * 1 * d ≤ n * 1 by rwa [Nat.mul_one, Nat.mul_one])
  rwa [saturatedRatio_of_some hself, saturatedRatio_of_some hq] at hle

/-! ## Sums and products once more -/

/-- A search looks at the members of the list alone. -/
theorem findSome?_congr {α β : Type} {f g : α → Option β} {l : List α} (h : ∀ x ∈ l, f x = g x) :
    l.findSome? f = l.findSome? g := by
  induction l with
  | nil => rfl
  | cons x l ih =>
    rw [List.findSome?_cons, List.findSome?_cons, h x (List.mem_cons_self ..),
      ih fun y hy => h y (List.mem_cons_of_mem x hy)]

/-- **Sums and products are ratios** with a power of ten below. -/
theorem nearest?_eq_nearestRatio? (n : Int) :
    nearest? n = (nearestRatio? n.natAbs (tens 28)).map fun q => signed (decide (n < 0)) q := by
  rw [nearest?, fit?_eq_findSome?, nearestRatio?,
    show List.range' (56 - 28) (56 + 1 - (56 - 28)) = (List.range' 0 29).map (28 + ·) by decide,
    List.findSome?_map, List.map_findSome?, List.map_findSome?]
  refine findSome?_congr fun k hk => ?_
  have hk := (List.mem_range'_1.mp hk).2
  simp only [Function.comp_apply]
  unfold dropped? ofParts? digitsAt
  rw [← tens_add]
  by_cases hfit : divHalfEven n.natAbs (tens (28 + k)) < mantissaBound
  · rw [dif_pos ⟨hfit, by omega⟩, if_pos hfit, Option.map_some, Option.map_some, quanta,
      coefficient_eq_signed]
    dsimp only
    rw [show 28 - (56 - (28 + k)) = k by omega]
    unfold signed
    split
    · rw [Int.natCast_mul, Int.neg_mul]
    · rw [Int.natCast_mul]
  · rw [dif_neg (fun h => hfit h.1), if_neg hfit]
    rfl

end Decimal

end StakeAccounting

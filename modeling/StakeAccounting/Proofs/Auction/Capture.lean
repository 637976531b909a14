import StakeAccounting.Proofs.Auction.Run

/-!
# Stepping falls behind a capture

There are two ways to the snapshot of a block: capture it there, or capture it earlier and
step on. They agree in everything but the capacity. A capture carries the base capacity
once, and stepping carries it at every block of the window; each time up to a millionth is
lost, and never gained. So the capacity that was stepped to is less by no more millionths
than there were steps in the window (`capture_later`).

The argument is about carrying alone: a value that was carried on over several rates is
within so many millionths below the one that is carried at once (`CarriesWithin`).
-/

namespace StakeAccounting

open Decimal

namespace Capacity

/-! ## Roundings add up -/

/-- **`c` is what `v` at the rate `r` is carried to at the rate `s`**, in steps that lose up
to `n` millionths more than carrying it at once. -/
structure CarriesWithin (n : Nat) (v r s c : Decimal) : Prop where
  onChain : AmountOnChain c
  le : debtAt c s ≤ debtAt v r
  lt : debtAt v r < (c.value + (n + 1) * millionth) * (100 + s.value)

variable {n : Nat} {v r s t c d : Decimal}

/-- Carried at once, nothing more is lost. -/
theorem Carries.within (h : Carries v r s c) : CarriesWithin 0 v r s c where
  onChain := h.onChain
  le := h.le
  lt := by
    have hlt := h.lt
    rwa [Nat.cast_zero, zero_add, one_mul]

/-- **Carrying on to a higher rate** loses up to a millionth more. -/
theorem CarriesWithin.carry (h : CarriesWithin n v r s c) (hnext : Carries c s t d)
    (hst : s ≤ t) : CarriesWithin (n + 1) v r t d where
  onChain := hnext.onChain
  le := le_trans hnext.le h.le
  lt := by
    have hloss : (0 : Rat) ≤ (n + 1) * millionth :=
      mul_nonneg (by exact_mod_cast Nat.zero_le (n + 1)) (by norm_num [millionth])
    calc debtAt v r < (c.value + (n + 1) * millionth) * (100 + s.value) := h.lt
      _ = debtAt c s + (n + 1) * millionth * (100 + s.value) := by rw [debtAt]; ring
      _ ≤ debtAt c s + (n + 1) * millionth * (100 + t.value) :=
        add_le_add_right (mul_le_mul_of_nonneg_left
          (add_le_add_right (le_iff_value_le.mp hst) 100) hloss) _
      _ ≤ (d.value + millionth) * (100 + t.value) + (n + 1) * millionth * (100 + t.value) :=
        add_le_add_left (le_of_lt hnext.lt) _
      _ = (d.value + ((n + 1 : Nat) + 1) * millionth) * (100 + t.value) := by
        push_cast
        ring

/-- **Against carrying at once** nothing is gained, and `n` millionths are lost at most. -/
theorem CarriesWithin.bounds (h : CarriesWithin n v r s c) (hd : Carries v r s d)
    (hs : .zero ≤ s) : c ≤ d ∧ d.value ≤ c.value + n * millionth := by
  have hpos := hundred_add_pos hs
  have hbelow : c.value < d.value + millionth :=
    lt_of_mul_lt_mul_right (lt_of_le_of_lt h.le hd.lt) (le_of_lt hpos)
  have habove : d.value < c.value + (n + 1) * millionth :=
    lt_of_mul_lt_mul_right (lt_of_le_of_lt hd.le h.lt) (le_of_lt hpos)
  exact ⟨h.onChain.le_of_lt hd.onChain hbelow, hd.onChain.value_le_of_lt h.onChain n habove⟩

end Capacity

namespace AuctionState

open Capacity

variable {curve : RateCurve} {p : EpochParams} {s : AuctionState}

/-! ## Stepping on -/

/-- **Stepping on above equilibrium** carries the capacity once more for every block of the
window. -/
theorem Follows.afterBlocks_above (hs : s.Follows curve p) (habove : p.aboveEquilibrium = true)
    (hcurve : curve.OnChain) (hp : p.OnChain)
    (hcarries : Carries p.baseCapacity p.maxRate s.currentRate s.capacity) (k : Nat) :
    ∃ n ≤ min k 25, CarriesWithin n p.baseCapacity p.maxRate (s.afterBlocks k).currentRate
      (s.afterBlocks k).capacity := by
  have hsteps := afterBlocks_induction (s := s)
    (P := fun k u => u.Follows curve p ∧ u.offset.toNat = min 25 (s.offset.toNat + k) ∧
      CarriesWithin (u.offset.toNat - s.offset.toNat) p.baseCapacity p.maxRate u.currentRate
        u.capacity) ?_ ?_ k
  · obtain ⟨-, hoffset, hwithin⟩ := hsteps
    exact ⟨_, by omega, hwithin⟩
  · have hle := hs.offset_le
    exact ⟨hs, by omega, by rw [Nat.sub_self]; exact hcarries.within⟩
  · rintro k u ⟨hu, hoffset, hwithin⟩
    by_cases h : u.offset.toNat < 25
    · obtain ⟨t, ht, hfollows, hnext, hcarried⟩ := hu.exists_advanced_above habove hcurve
        hp.maxRate hwithin.onChain (le_trans hwithin.le hp.debtAt_le) h
      have hmore := hwithin.carry hcarried (hu.currentRate_le_currentRate hfollows (by omega))
      refine ⟨t, ht, hfollows, by omega, ?_⟩
      rwa [show t.offset.toNat - s.offset.toNat = u.offset.toNat - s.offset.toNat + 1 by omega]
    · exact ⟨u, advanced_of_le (by omega), hu, by omega, hwithin⟩

theorem toNat_later {here : Block} {k : Nat} (hk : here.height.toNat + k < 18446744073709551616) :
    (here.later (.ofNat k)).height.toNat = here.height.toNat + k := by
  rw [Block.later, UInt64.toNat_add, UInt64.toNat_ofNat', Nat.mod_eq_of_lt (a := k) (by omega),
    Nat.mod_eq_of_lt hk]

/-- **Stepping agrees with capturing.** From a block of the epoch on, stepping over `k`
blocks leads to the offset, the phase and the rate that are captured there. Below
equilibrium it leads to the capacity, too. Above, the capacity that is captured is no less,
and more by no more than one millionth for each step in the window; and it is never less
than the base capacity. -/
theorem capture_later (hcurve : curve.OnChain) (hp : p.OnChain) (here : Block) (k : Nat)
    (hstart : p.epochStart.height ≤ here.height)
    (hk : here.height.toNat + k < 18446744073709551616) :
    ∃ start later, capture curve p here = .ok start ∧
      capture curve p (here.later (.ofNat k)) = .ok later ∧
      (∀ i, (start.afterBlocks i).advance.2 = .ok ()) ∧
      (start.afterBlocks k).offset = later.offset ∧
      (start.afterBlocks k).phase = later.phase ∧
      (start.afterBlocks k).currentRate = later.currentRate ∧
      (p.aboveEquilibrium = false → (start.afterBlocks k).capacity = later.capacity) ∧
      (p.aboveEquilibrium = true → (start.afterBlocks k).capacity ≤ later.capacity ∧
        later.capacity.value ≤ (start.afterBlocks k).capacity.value + (min k 25 : Nat) * millionth ∧
        p.baseCapacity ≤ later.capacity) := by
  obtain ⟨start, hstarted, horder, hoffset⟩ := exists_capture_inOrder here hcurve hp
  obtain ⟨later, hlater, horder', hoffset'⟩ :=
    exists_capture_inOrder (here.later (.ofNat k)) hcurve hp
  obtain ⟨hstepped, hcount⟩ := horder.afterBlocks hcurve hp k
  have hsame : (start.afterBlocks k).offset = later.offset := by
    have hheight := UInt64.le_iff_toNat_le.mp hstart
    rw [← UInt64.toNat_inj, hcount, hoffset, hoffset', toNat_offsetAt, toNat_offsetAt,
      toNat_later hk]
    omega
  have hrate := hstepped.currentRate_eq horder'.toFollows hsame
  refine ⟨start, later, hstarted, hlater, horder.advance_afterBlocks hcurve hp, hsame,
    congrArg AuctionPhase.ofOffset hsame, hrate, fun hbelow => ?_, fun habove => ?_⟩
  · rw [(horder.afterBlocks_below hbelow k).2, capacity_of_capture hstarted hbelow,
      capacity_of_capture hlater hbelow]
  · have hcarries := carries_of_capture hlater habove hcurve hp
    obtain ⟨n, hn, hwithin⟩ := horder.afterBlocks_above habove hcurve hp
      (carries_of_capture hstarted habove hcurve hp) k
    rw [hrate] at hwithin
    have hnonneg := (horder'.rateOnChain hcurve hp.maxRate).nonneg
    obtain ⟨hless, hmore⟩ := hwithin.bounds hcarries hnonneg
    refine ⟨hless, le_trans hmore ?_, hcarries.self_le hp.baseCapacity hnonneg
      (horder'.currentRate_le hp.maxRate.nonneg)⟩
    exact add_le_add_right (mul_le_mul_of_nonneg_right (by exact_mod_cast hn)
      (by norm_num [millionth])) _

/-- Over the whole window at ten percent: stepping leaves 999.999986 of what a capture at its
end finds to be 1000. -/
theorem capture_later_tenPercent :
    let start : AuctionState := ⟨⟨100⟩, 0, .ofUInt32 10, .one, ⟨false, 1089108910, 6, by decide,
      by decide⟩, true, .standard⟩
    let later : AuctionState := ⟨⟨100⟩, 25, .ofUInt32 10, .ofUInt32 10, .ofUInt32 1000, true,
      .standard⟩
    capture .standard .tenPercent ⟨100⟩ = .ok start ∧
      capture .standard .tenPercent ⟨125⟩ = .ok later ∧
      (start.afterBlocks 25).capacity = ⟨false, 999999986, 6, by decide, by decide⟩ ∧
      (start.afterBlocks 25).currentRate = later.currentRate ∧
      later.capacity.value ≤ (start.afterBlocks 25).capacity.value + (25 : Nat) * millionth := by
  intro start later
  have hstart : capture .standard .tenPercent ⟨100⟩ = .ok start := by decide +kernel
  have hlater : capture .standard .tenPercent ⟨125⟩ = .ok later := by decide +kernel
  obtain ⟨s, t, hs, ht, -, -, -, hrate, -, habove⟩ := capture_later RateCurve.onChain_standard
    EpochParams.onChain_tenPercent ⟨100⟩ 25 (by decide) (by decide)
  obtain rfl : s = start := Except.ok.inj (hs.symm.trans hstart)
  obtain rfl : t = later := Except.ok.inj (ht.symm.trans hlater)
  exact ⟨hstart, hlater, by decide +kernel, hrate, (habove rfl).2.1⟩

end AuctionState

end StakeAccounting

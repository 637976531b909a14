import StakeAccounting.Proofs.Auction.Epoch

/-!
# An auction runs to the maximum

Block after block, the rate of an auction rises to the maximum, and the capacity falls so
far that the debt it makes for, `capacity · (100 + rate)`, does not grow: it never exceeds
what the parameters allow, whatever the roundings on the way (`capture_afterBlocks`). After
the 25 blocks of the window nothing changes any more. Below equilibrium the capacity stays
what it was from the start.

Nothing of this can fail on the way: what a step needs is part of what it keeps
(`InOrder.exists_advances`), so the run is an induction on the number of blocks
(`afterBlocks_induction`).
-/

namespace StakeAccounting

open Decimal Capacity

/-- **The debt that the parameters allow**, times a hundred. -/
def EpochParams.issuable (p : EpochParams) : Rat := p.baseCapacity.value * (100 + p.maxRate.value)

namespace AuctionState

/-- **The debt that the capacity makes for** at the rate now, times a hundred. -/
def issuable (s : AuctionState) : Rat := s.capacity.value * (100 + s.currentRate.value)

/-- **The snapshot `n` blocks later.** -/
def afterBlocks (s : AuctionState) (n : Nat) : AuctionState :=
  (s.run (List.replicate n .advance)).1

variable {curve : RateCurve} {p : EpochParams} {s t : AuctionState} {n : Nat}

/-- Above equilibrium this is the most debt that the capacity can make for. -/
theorem Follows.ceiling_above (hs : s.Follows curve p) (habove : p.aboveEquilibrium = true) :
    s.ceiling = s.issuable := by
  rw [ceiling, hs.dearestRate_above habove, debtAt, issuable]

/-! ## Block after block -/

theorem afterBlocks_succ (s : AuctionState) (n : Nat) :
    s.afterBlocks (n + 1) = (s.afterBlocks n).advance.1 := by
  unfold afterBlocks run
  rw [List.replicate_succ', History.run_append]
  rfl

theorem advance_of_ok (h : s.advanced = .ok t) : s.advance = (t, .ok ()) := by
  rw [advance, h]

theorem afterBlocks_succ_of_ok (h : (s.afterBlocks n).advanced = .ok t) :
    s.afterBlocks (n + 1) = t := by
  rw [afterBlocks_succ, advance_of_ok h]

/-- **What lets a step succeed and is kept by it** holds after any number of blocks. It may
count them. -/
theorem afterBlocks_induction {P : Nat → AuctionState → Prop} (hzero : P 0 s)
    (hstep : ∀ n u, P n u → ∃ t, u.advanced = .ok t ∧ P (n + 1) t) (n : Nat) :
    P n (s.afterBlocks n) := by
  induction n with
  | zero => exact hzero
  | succ n ih =>
    obtain ⟨t, ht, hkeeps⟩ := hstep n _ ih
    rwa [afterBlocks_succ_of_ok ht]

/-! ## The run -/

/-- In order at the start, in order throughout. -/
theorem InOrder.afterBlocks (hs : s.InOrder curve p) (hcurve : curve.OnChain) (hp : p.OnChain)
    (n : Nat) : (s.afterBlocks n).InOrder curve p ∧
      (s.afterBlocks n).offset.toNat = min 25 (s.offset.toNat + n) := by
  refine afterBlocks_induction
    (P := fun n u => u.InOrder curve p ∧ u.offset.toNat = min 25 (s.offset.toNat + n)) ?_ ?_ n
  · have := hs.offset_le
    exact ⟨hs, by omega⟩
  · rintro n u ⟨hu, hoffset⟩
    obtain ⟨t, ht, hadvances⟩ := hu.exists_advances hcurve hp
    have hnext := hadvances.offset_eq
    exact ⟨t, ht, hadvances.inOrder, by omega⟩

/-- In order at the start, no step fails. -/
theorem InOrder.advance_afterBlocks (hs : s.InOrder curve p) (hcurve : curve.OnChain)
    (hp : p.OnChain) (n : Nat) : (s.afterBlocks n).advance.2 = .ok () := by
  obtain ⟨t, ht, -⟩ := (hs.afterBlocks hcurve hp n).1.exists_advances hcurve hp
  rw [advance_of_ok ht]

/-- Below equilibrium the capacity stays, for every curve and all parameters. -/
theorem Follows.afterBlocks_below (hs : s.Follows curve p) (hbelow : p.aboveEquilibrium = false)
    (n : Nat) : (s.afterBlocks n).Follows curve p ∧ (s.afterBlocks n).capacity = s.capacity := by
  refine afterBlocks_induction
    (P := fun _ u => u.Follows curve p ∧ u.capacity = s.capacity) ⟨hs, rfl⟩ ?_ n
  rintro n u ⟨hu, hcapacity⟩
  by_cases h : u.offset.toNat < 25
  · obtain ⟨t, ht, hfollows, -, hkept⟩ := hu.exists_advanced_below hbelow h
    exact ⟨t, ht, hfollows, hkept.trans hcapacity⟩
  · exact ⟨u, advanced_of_le (by omega), hu, hcapacity⟩

/-- **The law of an auction.** Above equilibrium, with parameters on chain, the capture and
all steps succeed; from each block to the next the rate does not fall, the capacity does not
grow, and neither does the debt it makes for, which is within what the parameters allow;
and from the 25th block on the auction is steady at the maximum and stays as it is. Below
equilibrium they succeed for all parameters, and the capacity is the base capacity
throughout. -/
theorem capture_afterBlocks (curve : RateCurve) (p : EpochParams) (here : Block) :
    (p.aboveEquilibrium = true → curve.OnChain → p.OnChain →
      ∃ start, capture curve p here = .ok start ∧ ∀ n,
        (start.afterBlocks n).advance.2 = .ok () ∧
        (start.afterBlocks n).currentRate ≤ (start.afterBlocks (n + 1)).currentRate ∧
        (start.afterBlocks (n + 1)).capacity ≤ (start.afterBlocks n).capacity ∧
        (start.afterBlocks (n + 1)).issuable ≤ (start.afterBlocks n).issuable ∧
        (start.afterBlocks n).issuable ≤ p.issuable ∧
        (25 ≤ n → (start.afterBlocks n).phase = .steady ∧
          (start.afterBlocks n).currentRate.Same p.maxRate ∧
          start.afterBlocks (n + 1) = start.afterBlocks n)) ∧
    (p.aboveEquilibrium = false →
      ∃ start, capture curve p here = .ok start ∧ ∀ n,
        (start.afterBlocks n).advance.2 = .ok () ∧
        (start.afterBlocks n).capacity = p.baseCapacity) := by
  constructor
  · intro habove hcurve hp
    obtain ⟨start, hstart, horder, -⟩ := exists_capture_inOrder here hcurve hp
    refine ⟨start, hstart, fun n => ?_⟩
    obtain ⟨hn, hoffset⟩ := horder.afterBlocks hcurve hp n
    obtain ⟨t, ht, hadvances⟩ := hn.exists_advances hcurve hp
    have hceiling := hadvances.ceiling_le
    have hbound := hn.ceiling_le
    rw [hn.ceiling_above habove] at hceiling hbound
    rw [hadvances.inOrder.ceiling_above habove] at hceiling
    rw [afterBlocks_succ_of_ok ht]
    refine ⟨horder.advance_afterBlocks hcurve hp n, hadvances.currentRate_le,
      hadvances.capacity_le, hceiling, hbound, fun h => ?_⟩
    have hended : 25 ≤ (start.afterBlocks n).offset.toNat := by omega
    exact ⟨phase_of_le hended, hn.currentRate_same hp.maxRate.nonneg hended,
      Except.ok.inj (ht.symm.trans (advanced_of_le hended))⟩
  · intro hbelow
    obtain ⟨start, hstart, hfollows, -, hcapacity⟩ := exists_capture_below curve here hbelow
    refine ⟨start, hstart, fun n => ?_⟩
    obtain ⟨hn, hkept⟩ := hfollows.afterBlocks_below hbelow n
    refine ⟨?_, hkept.trans hcapacity⟩
    by_cases h : (start.afterBlocks n).offset.toNat < 25
    · obtain ⟨t, ht, -⟩ := hn.exists_advanced_below hbelow h
      rw [advance_of_ok ht]
    · rw [advance_of_ok (advanced_of_le (by omega))]

/-- At ten percent a capacity of 1000 is 1089.108910 at the start. The roundings of 25 blocks
leave 999.999986 of it, and so less debt than the parameters allow. Below equilibrium it stays
1000. -/
theorem capture_afterBlocks_tenPercent :
    let start : AuctionState := ⟨⟨100⟩, 0, .ofUInt32 10, .one, ⟨false, 1089108910, 6, by decide,
      by decide⟩, true, .standard⟩
    capture .standard .tenPercent ⟨97⟩ = .ok start ∧
      (∀ n, (start.afterBlocks n).issuable ≤ EpochParams.tenPercent.issuable) ∧
      (start.afterBlocks 25).capacity = ⟨false, 999999986, 6, by decide, by decide⟩ ∧
      (∀ n, 25 ≤ n → (start.afterBlocks n).currentRate.Same (.ofUInt32 10)) ∧
      ∃ flat, capture .standard { EpochParams.tenPercent with aboveEquilibrium := false } ⟨97⟩ =
          .ok flat ∧
        ∀ n, (flat.afterBlocks n).capacity = .ofUInt32 1000 := by
  intro start
  have hstart : capture .standard .tenPercent ⟨97⟩ = .ok start := by decide +kernel
  obtain ⟨s, hs, hrun⟩ := (capture_afterBlocks .standard .tenPercent ⟨97⟩).1 rfl
    RateCurve.onChain_standard EpochParams.onChain_tenPercent
  obtain rfl : s = start := Except.ok.inj (hs.symm.trans hstart)
  obtain ⟨flat, hflat, hkept⟩ := (capture_afterBlocks .standard
    { EpochParams.tenPercent with aboveEquilibrium := false } ⟨97⟩).2 rfl
  refine ⟨hstart, fun n => ?_, by decide +kernel, fun n h => ?_, flat, hflat, fun n => (hkept n).2⟩
  · obtain ⟨-, -, -, -, hbound, -⟩ := hrun n
    exact hbound
  · obtain ⟨-, -, -, -, -, hended⟩ := hrun n
    exact (hended h).2.1

end AuctionState

end StakeAccounting

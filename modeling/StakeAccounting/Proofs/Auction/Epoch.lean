import StakeAccounting.Auction.Action
import StakeAccounting.Proofs.Auction.Capacity
import StakeAccounting.Proofs.Auction.Rate

/-!
# The snapshots of an epoch

A snapshot **follows** an epoch if it has the epoch's parameters, an offset in the window
or at its end, and the rate of that offset (`AuctionState.Follows`). What is captured from
the parameters does, a step keeps it, and so does anything that changes the capacity alone.
From this the rate of a snapshot is known for every curve and all parameters, and with it
that a step below equilibrium always succeeds.

Above equilibrium the capacity follows the rate, and for that the parameters have to be as
they are **on chain** (`EpochParams.OnChain`). Then what is captured is carried from the
base capacity, and each step carries the capacity from one rate to the next
(`exists_capture_above`, `exists_advanced_above`). So a snapshot stays **in order**
(`AuctionState.InOrder`): its capacity is an amount on chain, and the most debt that it can
still make for, its **ceiling**, is within what the parameters allow.
-/

namespace StakeAccounting

open Decimal Capacity

/-- **Parameters on chain**: amounts and rates in range, and together within the limit. -/
structure EpochParams.OnChain (p : EpochParams) : Prop where
  baseCapacity : AmountOnChain p.baseCapacity
  maxRate : RateOnChain p.maxRate
  debtAt_le : debtAt p.baseCapacity p.maxRate ≤ debtLimit

/-- **A curve on chain** has rates in whole millionths. -/
structure RateCurve.OnChain (c : RateCurve) : Prop where
  rateDecimals_le : c.rateDecimals.toNat ≤ places
  minRate_onGrid : c.minRate.OnGrid places

/-- The curve of the protocol is on chain. -/
theorem RateCurve.onChain_standard : standard.OnChain := ⟨by decide, by decide⟩

/-- From block 100 on, a capacity of 1000 at ten percent. -/
def EpochParams.tenPercent : EpochParams := ⟨⟨100⟩, .ofUInt32 10, .ofUInt32 1000, true⟩

theorem EpochParams.onChain_tenPercent : tenPercent.OnChain where
  baseCapacity := ⟨by decide, by decide⟩
  maxRate := ⟨by decide, by decide, by decide +kernel⟩
  debtAt_le := by
    unfold debtLimit
    decide +kernel

namespace AuctionState

/-- **A snapshot of an epoch.** -/
structure Follows (curve : RateCurve) (p : EpochParams) (s : AuctionState) : Prop where
  curve_eq : s.curve = curve
  maxRate_eq : s.maxRate = p.maxRate
  aboveEquilibrium_eq : s.aboveEquilibrium = p.aboveEquilibrium
  offset_le : s.offset.toNat ≤ 25
  rateAt_eq : curve.rateAt s.offset p.maxRate = .ok s.currentRate

variable {curve : RateCurve} {p : EpochParams} {s t : AuctionState}

/-! ## The rate of a snapshot -/

theorem Follows.currentRate_le (hs : s.Follows curve p) (hmax : .zero ≤ p.maxRate) :
    s.currentRate ≤ p.maxRate := RateCurve.rateAt_le hmax hs.rateAt_eq

/-- Further on in the epoch the rate is no lower. -/
theorem Follows.currentRate_le_currentRate (hs : s.Follows curve p) (ht : t.Follows curve p)
    (h : s.offset.toNat ≤ t.offset.toNat) : s.currentRate ≤ t.currentRate :=
  RateCurve.rateAt_le_rateAt hs.rateAt_eq ht.rateAt_eq (UInt64.le_iff_toNat_le.mpr h)

/-- At the same offset the rate is the same. -/
theorem Follows.currentRate_eq (hs : s.Follows curve p) (ht : t.Follows curve p)
    (h : s.offset = t.offset) : s.currentRate = t.currentRate := by
  have hr := hs.rateAt_eq
  rw [h, ht.rateAt_eq] at hr
  exact (Except.ok.inj hr).symm

/-- The rates of parameters on chain are on chain. -/
theorem Follows.rateOnChain (hs : s.Follows curve p) (hcurve : curve.OnChain)
    (hmax : RateOnChain p.maxRate) : RateOnChain s.currentRate where
  nonneg := RateCurve.rateAt_nonneg hs.rateAt_eq
  onGrid := RateCurve.onGrid_rateAt hcurve.rateDecimals_le hcurve.minRate_onGrid hmax.onGrid
    hs.rateAt_eq
  value_le := le_trans (le_iff_value_le.mp (hs.currentRate_le hmax.nonneg)) hmax.value_le

/-! ## The end of the window -/

theorem phase_of_lt (h : s.offset.toNat < 25) : s.phase = .auction :=
  if_pos (UInt64.lt_iff_toNat_lt.mpr h)

theorem phase_of_le (h : 25 ≤ s.offset.toNat) : s.phase = .steady := by
  refine if_neg fun hlt => ?_
  have hlt : s.offset.toNat < 25 := UInt64.lt_iff_toNat_lt.mp hlt
  omega

/-- Behind the window a step changes nothing. -/
theorem advanced_of_le (h : 25 ≤ s.offset.toNat) : s.advanced = .ok s := by
  rw [advanced, phase_of_le h]
  rfl

/-- Behind the window the rate is the maximum. -/
theorem Follows.currentRate_same (hs : s.Follows curve p) (hmax : .zero ≤ p.maxRate)
    (h : 25 ≤ s.offset.toNat) : s.currentRate.Same p.maxRate :=
  RateCurve.same_of_ended hmax h hs.rateAt_eq

/-! ## What is captured -/

/-- The offset of a block in the epoch. -/
def offsetAt (p : EpochParams) (here : Block) : UInt64 :=
  if RateCurve.windowBlocks < here.distance p.epochStart then RateCurve.windowBlocks
  else here.distance p.epochStart

/-- The blocks since the start of the epoch, up to the end of the window. -/
theorem toNat_offsetAt (p : EpochParams) (here : Block) :
    (offsetAt p here).toNat = min 25 (here.height.toNat - p.epochStart.height.toNat) := by
  have hwindow : RateCurve.windowBlocks.toNat = 25 := rfl
  have hdistance : (here.distance p.epochStart).toNat =
      here.height.toNat - p.epochStart.height.toNat := by
    unfold Block.distance
    split
    · rename_i hle
      exact UInt64.toNat_sub_of_le _ _ hle
    · rename_i hlt
      rw [UInt64.le_iff_toNat_le] at hlt
      rw [UInt64.toNat_zero]
      omega
  unfold offsetAt
  split
  · rename_i hlt
    rw [UInt64.lt_iff_toNat_lt] at hlt
    omega
  · rename_i hle
    rw [UInt64.lt_iff_toNat_lt] at hle
    omega

/-- What is captured, but for the capacity, which may be refused. -/
theorem exists_capture (curve : RateCurve) (p : EpochParams) (here : Block) :
    ∃ rate, curve.rateAt (offsetAt p here) p.maxRate = .ok rate ∧
      capture curve p here = (do
        let capacity ←
          if p.aboveEquilibrium then atRate p.baseCapacity p.maxRate rate else pure p.baseCapacity
        pure ⟨p.epochStart, offsetAt p here, p.maxRate, rate, capacity, p.aboveEquilibrium,
          curve⟩) := by
  obtain ⟨rate, hrate⟩ := RateCurve.exists_rateAt curve (offsetAt p here) p.maxRate
  refine ⟨rate, hrate, ?_⟩
  change (curve.rateAt (offsetAt p here) p.maxRate >>= _) = _
  rw [hrate]
  rfl

/-- A captured snapshot follows the epoch. -/
theorem follows_captured {here : Block} {rate : Decimal} (capacity : Decimal)
    (hrate : curve.rateAt (offsetAt p here) p.maxRate = .ok rate) :
    Follows curve p ⟨p.epochStart, offsetAt p here, p.maxRate, rate, capacity,
      p.aboveEquilibrium, curve⟩ where
  curve_eq := rfl
  maxRate_eq := rfl
  aboveEquilibrium_eq := rfl
  offset_le := (toNat_offsetAt p here).symm ▸ Nat.min_le_left ..
  rateAt_eq := hrate

/-- **Below equilibrium** the base capacity is captured. -/
theorem exists_capture_below (curve : RateCurve) (here : Block)
    (hbelow : p.aboveEquilibrium = false) :
    ∃ s, capture curve p here = .ok s ∧ s.Follows curve p ∧ s.offset = offsetAt p here ∧
      s.capacity = p.baseCapacity := by
  obtain ⟨rate, hrate, hcapture⟩ := exists_capture curve p here
  refine ⟨_, ?_, follows_captured p.baseCapacity hrate, rfl, rfl⟩
  rw [hcapture, hbelow, if_neg (by decide)]
  rfl

/-- **Above equilibrium** the base capacity is carried from the maximum to the rate. -/
theorem exists_capture_above (here : Block) (habove : p.aboveEquilibrium = true)
    (hcurve : curve.OnChain) (hp : p.OnChain) :
    ∃ s, capture curve p here = .ok s ∧ s.Follows curve p ∧ s.offset = offsetAt p here ∧
      Carries p.baseCapacity p.maxRate s.currentRate s.capacity := by
  obtain ⟨rate, hrate, hcapture⟩ := exists_capture curve p here
  have hfollows := follows_captured p.baseCapacity hrate
  obtain ⟨capacity, hcapacity, hcarries⟩ := exists_atRate hp.baseCapacity hp.maxRate
    (hfollows.rateOnChain hcurve hp.maxRate) (hfollows.currentRate_le hp.maxRate.nonneg)
    hp.debtAt_le
  refine ⟨_, ?_, follows_captured capacity hrate, rfl, hcarries⟩
  rw [hcapture, habove, if_pos rfl, hcapacity]
  rfl

theorem capacity_of_capture {here : Block} (h : capture curve p here = .ok s)
    (hbelow : p.aboveEquilibrium = false) : s.capacity = p.baseCapacity := by
  obtain ⟨t, ht, -, -, hcapacity⟩ := exists_capture_below curve here hbelow
  obtain rfl : s = t := Except.ok.inj (h.symm.trans ht)
  exact hcapacity

theorem carries_of_capture {here : Block} (h : capture curve p here = .ok s)
    (habove : p.aboveEquilibrium = true) (hcurve : curve.OnChain) (hp : p.OnChain) :
    Carries p.baseCapacity p.maxRate s.currentRate s.capacity := by
  obtain ⟨t, ht, -, -, hcarries⟩ := exists_capture_above here habove hcurve hp
  obtain rfl : s = t := Except.ok.inj (h.symm.trans ht)
  exact hcarries

/-! ## What a step does -/

/-- A step inside the window, but for the capacity, which may be refused. -/
theorem Follows.exists_advanced (hs : s.Follows curve p) (h : s.offset.toNat < 25) :
    ∃ rate, curve.rateAt (s.offset + 1) p.maxRate = .ok rate ∧
      s.advanced = (do
        let capacity ← Capacity.next s.capacity s.currentRate rate p.aboveEquilibrium
        pure { s with offset := s.offset + 1, currentRate := rate, capacity := capacity }) := by
  obtain ⟨rate, hrate⟩ := RateCurve.exists_rateAt curve (s.offset + 1) p.maxRate
  have hnext : s.nextRate = .ok rate := by
    rw [nextRate, hs.curve_eq, hs.maxRate_eq]
    exact hrate
  refine ⟨rate, hrate, ?_⟩
  rw [advanced, phase_of_lt h]
  dsimp only
  rw [nextCapacity, hnext, hs.aboveEquilibrium_eq]
  rfl

theorem toNat_succ_offset (h : s.offset.toNat < 25) :
    (s.offset + 1).toNat = s.offset.toNat + 1 := by
  rw [UInt64.toNat_add, UInt64.toNat_one, Nat.mod_eq_of_lt (by omega)]

/-- The next block's snapshot follows the epoch. -/
theorem Follows.advance {rate : Decimal} (hs : s.Follows curve p) (h : s.offset.toNat < 25)
    (hrate : curve.rateAt (s.offset + 1) p.maxRate = .ok rate) (capacity : Decimal) :
    Follows curve p
      { s with offset := s.offset + 1, currentRate := rate, capacity := capacity } where
  curve_eq := hs.curve_eq
  maxRate_eq := hs.maxRate_eq
  aboveEquilibrium_eq := hs.aboveEquilibrium_eq
  offset_le := by
    have := toNat_succ_offset h
    dsimp only
    omega
  rateAt_eq := hrate

/-- **Below equilibrium** a step leaves the capacity as it is. -/
theorem Follows.exists_advanced_below (hs : s.Follows curve p)
    (hbelow : p.aboveEquilibrium = false) (h : s.offset.toNat < 25) :
    ∃ t, s.advanced = .ok t ∧ t.Follows curve p ∧ t.offset.toNat = s.offset.toNat + 1 ∧
      t.capacity = s.capacity := by
  obtain ⟨rate, hrate, hadvanced⟩ := hs.exists_advanced h
  refine ⟨_, ?_, hs.advance h hrate s.capacity, toNat_succ_offset h, rfl⟩
  rw [hadvanced, hbelow]
  rfl

/-- **Above equilibrium** a step carries the capacity to the next rate. -/
theorem Follows.exists_advanced_above (hs : s.Follows curve p) (habove : p.aboveEquilibrium = true)
    (hcurve : curve.OnChain) (hmax : RateOnChain p.maxRate) (hcapacity : AmountOnChain s.capacity)
    (hlimit : debtAt s.capacity s.currentRate ≤ debtLimit) (h : s.offset.toNat < 25) :
    ∃ t, s.advanced = .ok t ∧ t.Follows curve p ∧ t.offset.toNat = s.offset.toNat + 1 ∧
      Carries s.capacity s.currentRate t.currentRate t.capacity := by
  obtain ⟨rate, hrate, hadvanced⟩ := hs.exists_advanced h
  obtain ⟨capacity, hcarried, hcarries⟩ := exists_scaleFloor hcapacity
    (hs.rateOnChain hcurve hmax) ((hs.advance h hrate s.capacity).rateOnChain hcurve hmax) hlimit
  refine ⟨_, ?_, hs.advance h hrate capacity, toNat_succ_offset h, hcarries⟩
  rw [hadvanced, habove, Capacity.next, if_pos rfl, hcarried]
  rfl

/-! ## Snapshots in order -/

/-- The rate at which the capacity left makes for the most debt: the capacity follows the
rate, or it stays until the rate is at the maximum. -/
def dearestRate (s : AuctionState) : Decimal :=
  if s.aboveEquilibrium then s.currentRate else s.maxRate

/-- **The most debt that the capacity left can make for**, times a hundred. -/
def ceiling (s : AuctionState) : Rat := debtAt s.capacity s.dearestRate

/-- **A snapshot in order**: it follows the epoch, and its capacity is an amount on chain
that makes for no more debt than the parameters allow. -/
structure InOrder (curve : RateCurve) (p : EpochParams) (s : AuctionState) : Prop extends
    Follows curve p s where
  capacity : AmountOnChain s.capacity
  ceiling_le : s.ceiling ≤ debtAt p.baseCapacity p.maxRate

theorem Follows.dearestRate_above (hs : s.Follows curve p) (habove : p.aboveEquilibrium = true) :
    s.dearestRate = s.currentRate := if_pos (hs.aboveEquilibrium_eq.trans habove)

theorem Follows.dearestRate_below (hs : s.Follows curve p) (hbelow : p.aboveEquilibrium = false) :
    s.dearestRate = p.maxRate := by
  rw [dearestRate, if_neg (by rw [hs.aboveEquilibrium_eq, hbelow]; decide), hs.maxRate_eq]

/-- The dearest rate is no lower than the one now. -/
theorem Follows.currentRate_le_dearestRate (hs : s.Follows curve p) (hmax : .zero ≤ p.maxRate) :
    s.currentRate ≤ s.dearestRate := by
  cases heq : p.aboveEquilibrium with
  | true => rw [hs.dearestRate_above heq]; exact Decimal.le_refl _
  | false => rw [hs.dearestRate_below heq]; exact hs.currentRate_le hmax

/-- The debt at the rate now is within the limit. -/
theorem InOrder.debtAt_le (hs : s.InOrder curve p) (hp : p.OnChain) :
    debtAt s.capacity s.currentRate ≤ debtLimit :=
  calc debtAt s.capacity s.currentRate ≤ s.ceiling := debtAt_le_debtAt hs.capacity.nonneg
        (hs.currentRate_le_dearestRate hp.maxRate.nonneg)
    _ ≤ debtAt p.baseCapacity p.maxRate := hs.ceiling_le
    _ ≤ debtLimit := hp.debtAt_le

/-- **What is captured is in order.** -/
theorem exists_capture_inOrder (here : Block) (hcurve : curve.OnChain) (hp : p.OnChain) :
    ∃ s, capture curve p here = .ok s ∧ s.InOrder curve p ∧ s.offset = offsetAt p here := by
  cases heq : p.aboveEquilibrium with
  | true =>
    obtain ⟨s, hs, hfollows, hoffset, hcarries⟩ := exists_capture_above here heq hcurve hp
    refine ⟨s, hs, ⟨hfollows, hcarries.onChain, ?_⟩, hoffset⟩
    rw [ceiling, hfollows.dearestRate_above heq]
    exact hcarries.le
  | false =>
    obtain ⟨s, hs, hfollows, hoffset, hcapacity⟩ := exists_capture_below curve here heq
    refine ⟨s, hs, ⟨hfollows, hcapacity ▸ hp.baseCapacity, ?_⟩, hoffset⟩
    rw [ceiling, hfollows.dearestRate_below heq, hcapacity]

/-- **What a step does** to a snapshot in order. -/
structure Advances (curve : RateCurve) (p : EpochParams) (s t : AuctionState) : Prop where
  inOrder : t.InOrder curve p
  offset_eq : t.offset.toNat = min 25 (s.offset.toNat + 1)
  currentRate_le : s.currentRate ≤ t.currentRate
  capacity_le : t.capacity ≤ s.capacity
  capacity_eq : p.aboveEquilibrium = false → t.capacity = s.capacity
  ceiling_le : t.ceiling ≤ s.ceiling

/-- Above equilibrium, inside the window: the capacity is carried on. -/
theorem InOrder.exists_advances_above (hs : s.InOrder curve p) (hcurve : curve.OnChain)
    (hp : p.OnChain) (habove : p.aboveEquilibrium = true) (h : s.offset.toNat < 25) :
    ∃ t, s.advanced = .ok t ∧ Advances curve p s t := by
  obtain ⟨t, ht, hfollows, hoffset, hcarries⟩ := hs.exists_advanced_above habove hcurve
    hp.maxRate hs.capacity (hs.debtAt_le hp) h
  have hrates := hs.currentRate_le_currentRate hfollows (by omega)
  have hceiling : t.ceiling ≤ s.ceiling := by
    rw [ceiling, ceiling, hfollows.dearestRate_above habove, hs.dearestRate_above habove]
    exact hcarries.le
  exact ⟨t, ht,
    { inOrder := ⟨hfollows, hcarries.onChain, le_trans hceiling hs.ceiling_le⟩
      offset_eq := by omega
      currentRate_le := hrates
      capacity_le := hcarries.le_self hs.capacity.nonneg
        (hs.rateOnChain hcurve hp.maxRate).nonneg hrates
      capacity_eq := fun hbelow => nomatch habove.symm.trans hbelow
      ceiling_le := hceiling }⟩

/-- Below equilibrium, inside the window: the capacity stays. -/
theorem InOrder.exists_advances_below (hs : s.InOrder curve p)
    (hbelow : p.aboveEquilibrium = false) (h : s.offset.toNat < 25) :
    ∃ t, s.advanced = .ok t ∧ Advances curve p s t := by
  obtain ⟨t, ht, hfollows, hoffset, hcapacity⟩ := hs.exists_advanced_below hbelow h
  have hceiling : t.ceiling = s.ceiling := by
    rw [ceiling, ceiling, hfollows.dearestRate_below hbelow, hs.dearestRate_below hbelow, hcapacity]
  exact ⟨t, ht,
    { inOrder := ⟨hfollows, hcapacity ▸ hs.capacity, hceiling ▸ hs.ceiling_le⟩
      offset_eq := by omega
      currentRate_le := hs.currentRate_le_currentRate hfollows (by omega)
      capacity_le := hcapacity ▸ Decimal.le_refl _
      capacity_eq := fun _ => hcapacity
      ceiling_le := le_of_eq hceiling }⟩

/-- **A step keeps the order**, and what the capacity left can make for does not grow. -/
theorem InOrder.exists_advances (hs : s.InOrder curve p) (hcurve : curve.OnChain)
    (hp : p.OnChain) : ∃ t, s.advanced = .ok t ∧ Advances curve p s t := by
  by_cases h : s.offset.toNat < 25
  · cases heq : p.aboveEquilibrium with
    | true => exact hs.exists_advances_above hcurve hp heq h
    | false => exact hs.exists_advances_below heq h
  · have hle := hs.offset_le
    exact ⟨s, advanced_of_le (by omega),
      { inOrder := hs
        offset_eq := by omega
        currentRate_le := Decimal.le_refl _
        capacity_le := Decimal.le_refl _
        capacity_eq := fun _ => rfl
        ceiling_le := le_refl _ }⟩

end AuctionState

end StakeAccounting

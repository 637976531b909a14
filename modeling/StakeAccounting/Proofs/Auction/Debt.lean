import StakeAccounting.Auction.Sow
import StakeAccounting.Proofs.Auction.Epoch
import StakeAccounting.Proofs.Auction.Excess

/-!
# Debt rises with the block and with the amount

Whoever lends earlier in an epoch lends at a lower rate, so the protocol should take on less
debt, or the same. A debt is what is left of a product and a quotient after four roundings, though,
and its amount may be off to either side (`Capacity.overstated_iff`). That does not matter here:
each of the roundings keeps the order, whatever scales it meets, and so does what is carried
(`Capacity.scaleFloor_le_scaleFloor`).

The rate that goes into a debt is that of the snapshot. A capture at a later block has no lower
rate, since the offset is no smaller and the rate climbs along the curve
(`AuctionState.currentRate_le_of_capture`). Neither the parameters nor the curve have to be on
chain for this, nor need they make sense: without a positive maximum there is no rate, and all
blocks cost the same.
-/

namespace StakeAccounting

open Decimal Capacity

namespace Capacity

variable {v v' r r' s s' q q' c c' : Decimal}

/-! ## What is carried keeps the order -/

/-- **The quotient keeps the order**: of a greater value, from a higher rate to a lower one, it is
no smaller. -/
theorem quotient?_le_quotient? (hv : .zero ≤ v) (hvle : v ≤ v') (hr : .zero ≤ r) (hrle : r ≤ r')
    (hs' : .zero ≤ s') (hsle : s' ≤ s) (h : quotient? v r s = some q)
    (h' : quotient? v' r' s' = some q') : q ≤ q' := by
  simp only [quotient?, Option.bind_eq_bind, Option.bind_eq_some_iff] at h h'
  obtain ⟨num, hnum, product, hproduct, den, hden, hq⟩ := h
  obtain ⟨num', hnum', product', hproduct', den', hden', hq'⟩ := h'
  have hnum0 : zero ≤ num :=
    Decimal.le_trans (Decimal.le_of_lt zero_lt_hundred) (hundred_le_of_add? hr hnum)
  have hnumle : num ≤ num' := add?_le_add? hrle hnum hnum'
  have hproduct0 : zero ≤ product := mul?_nonneg hproduct hv hnum0
  have hproductle : product ≤ product' :=
    mul?_le_mul?_of_le_of_le hv hvle hnum0 hnumle hproduct hproduct'
  have hden0 : zero < den' := Int.lt_of_lt_of_le zero_lt_hundred (hundred_le_of_add? hs' hden')
  have hdenle : den' ≤ den := add?_le_add? hsle hden' hden
  refine div?_le_div? hproduct0 (Int.lt_of_lt_of_le hden0 hdenle)
    (Decimal.le_trans hproduct0 hproductle) hden0 ?_ hq hq'
  exact Int.mul_le_mul hproductle hdenle (Int.le_of_lt hden0)
    (Int.le_trans hproduct0 hproductle)

/-- **What is carried keeps the order.** -/
theorem scaleFloor_le_scaleFloor (hv : .zero ≤ v) (hvle : v ≤ v') (hr : .zero ≤ r) (hrle : r ≤ r')
    (hs' : .zero ≤ s') (hsle : s' ≤ s) (h : scaleFloor v r s = .ok c)
    (h' : scaleFloor v' r' s' = .ok c') : c ≤ c' := by
  obtain ⟨q, hq, rfl⟩ := scaleFloor_eq_ok.mp h
  obtain ⟨q', hq', rfl⟩ := scaleFloor_eq_ok.mp h'
  exact roundDown_le_roundDown places (quotient?_le_quotient? hv hvle hr hrle hs' hsle hq hq')

/-- **A debt is no less** for a greater amount at a higher rate. -/
theorem debtFor_le_debtFor (hv : .zero ≤ v) (hvle : v ≤ v') (hr : .zero ≤ r) (hrle : r ≤ r')
    (h : debtFor v r = .ok c) (h' : debtFor v' r' = .ok c') : c ≤ c' :=
  scaleFloor_le_scaleFloor hv hvle hr hrle (Decimal.le_refl _) (Decimal.le_refl _) h h'

end Capacity

namespace AuctionState

variable {curve : RateCurve} {p : EpochParams} {here there : Block} {s t : AuctionState}
  {amount amount' : Decimal} {preview preview' : SowPreview}

/-! ## Later captures have no lower rate -/

/-- A snapshot that was captured follows the epoch, at the offset of its block. -/
theorem follows_of_capture (h : capture curve p here = .ok s) :
    s.Follows curve p ∧ s.offset = offsetAt p here := by
  obtain ⟨rate, hrate, hcapture⟩ := exists_capture curve p here
  rw [hcapture] at h
  split at h
  · obtain ⟨capacity, -, hs⟩ := Outcome.bind_eq_ok.mp h
    obtain rfl := Except.ok.inj hs
    exact ⟨follows_captured capacity hrate, rfl⟩
  · obtain rfl := Except.ok.inj h
    exact ⟨follows_captured p.baseCapacity hrate, rfl⟩

/-- **A later capture has no lower rate.** -/
theorem currentRate_le_of_capture (hs : capture curve p here = .ok s)
    (ht : capture curve p there = .ok t) (hblocks : here.height ≤ there.height) :
    s.currentRate ≤ t.currentRate := by
  obtain ⟨hfollows, hoffset⟩ := follows_of_capture hs
  obtain ⟨hfollows', hoffset'⟩ := follows_of_capture ht
  refine hfollows.currentRate_le_currentRate hfollows' ?_
  rw [UInt64.le_iff_toNat_le] at hblocks
  rw [hoffset, hoffset', toNat_offsetAt, toNat_offsetAt]
  omega

/-! ## What a sow would cost -/

/-- What is previewed is the debt for an amount that is positive, at the rate of the snapshot. -/
theorem debt_of_previewSow (h : s.previewSow amount = .ok preview) :
    .zero < amount ∧ debtFor amount s.currentRate = .ok preview.debt := by
  unfold previewSow at h
  split at h
  · cases h
  · rename_i hpos
    split at h
    · cases h
    · obtain ⟨debt, hdebt, hrest⟩ := Outcome.bind_eq_ok.mp h
      obtain ⟨capacityAfter, -, hpreview⟩ := Outcome.bind_eq_ok.mp hrest
      obtain rfl := Except.ok.inj hpreview
      exact ⟨Decimal.not_le.mp hpos, hdebt⟩

/-- **Sowing earlier, or less, never costs more debt.** For every curve and all parameters, the debt
that is previewed at a block is at most that at a later one, and the debt for an amount is at most
that for a greater one – at one block, which may be both, or at two. -/
theorem debt_le_of_capture (hs : capture curve p here = .ok s) (ht : capture curve p there = .ok t)
    (hblocks : here.height ≤ there.height) (hamount : amount ≤ amount')
    (h : s.previewSow amount = .ok preview) (h' : t.previewSow amount' = .ok preview') :
    preview.debt ≤ preview'.debt := by
  obtain ⟨hpos, hdebt⟩ := debt_of_previewSow h
  obtain ⟨-, hdebt'⟩ := debt_of_previewSow h'
  have hrate : .zero ≤ s.currentRate :=
    RateCurve.rateAt_nonneg (follows_of_capture hs).1.rateAt_eq
  exact debtFor_le_debtFor (Decimal.le_of_lt hpos) hamount hrate
    (currentRate_le_of_capture hs ht hblocks) hdebt hdebt'

/-- The rate climbs to a third of a hundred percent, to 27 places. One is sown a block into the
epoch, and the least bit more behind the window. Hardly a rounding on the way is exact, and the
debts are 1.093138 and 1.333333. -/
theorem debt_le_of_capture_third :
    let third : EpochParams := ⟨⟨100⟩,
      ⟨false, 33333333333333333333333333333, 27, by decide, by decide⟩, .ofUInt32 1000, true⟩
    let early : AuctionState := ⟨⟨100⟩, 1, third.maxRate, ⟨false, 9313844, 6, by decide, by decide⟩,
      ⟨false, 1219729619, 6, by decide, by decide⟩, true, .standard⟩
    let late : AuctionState := ⟨⟨100⟩, 25, third.maxRate, third.maxRate, .ofUInt32 1000, true,
      .standard⟩
    let more : Decimal := ⟨false, 10000000000000000000000000001, 28, by decide, by decide⟩
    let cheap : SowPreview := ⟨.one, early.currentRate, ⟨false, 1093138, 6, by decide, by decide⟩,
      ⟨false, 1218729619, 6, by decide, by decide⟩⟩
    let dear : SowPreview := ⟨more, late.currentRate, ⟨false, 1333333, 6, by decide, by decide⟩,
      ⟨false, 9990000000000000000000000000, 25, by decide, by decide⟩⟩
    capture .standard third ⟨101⟩ = .ok early ∧ capture .standard third ⟨130⟩ = .ok late ∧
      early.previewSow .one = .ok cheap ∧ late.previewSow more = .ok dear ∧
      cheap.debt ≤ dear.debt := by
  intro third early late more cheap dear
  have hearly : capture .standard third ⟨101⟩ = .ok early := by decide +kernel
  have hlate : capture .standard third ⟨130⟩ = .ok late := by decide +kernel
  have hcheap : early.previewSow .one = .ok cheap := by decide +kernel
  have hdear : late.previewSow more = .ok dear := by decide +kernel
  exact ⟨hearly, hlate, hcheap, hdear,
    debt_le_of_capture hearly hlate (by decide) (by decide) hcheap hdear⟩

end AuctionState

end StakeAccounting

import StakeAccounting.Proofs.Auction.Run

/-!
# Debt stays below the ceiling

Lenders sow and blocks pass, in any order. Sowing takes capacity at the rate of the moment,
stepping shrinks what is left of it as the rate rises, and each rounds in its own way. Still
the debt that was issued and the debt that the capacity left can make for stay together
within what the parameters of the epoch allow (`capture_run`).

What was sown is read off the actions: of every sow that was made it is the amount that was
asked for (`sown`). The debt is read off the answers (`issued`).

The argument is an account that is kept along the way (`Accounts`). What an action lends is
taken from the capacity, and what debt it issues from the ceiling; both may lose something
to the roundings, and never gain. Such accounts add up over a run (`Accounts.trans`,
`InOrder.run`). Where the capacity does not follow the rate, nothing of it is lost.
-/

namespace StakeAccounting

open Decimal Capacity

namespace Capacity

variable {v amount r : Decimal}

/-- An amount within the debt limit is far below the bound of a mantissa. -/
theorem AmountOnChain.exists_counts (hv : AmountOnChain v) (hr : .zero ≤ r)
    (hlimit : debtAt v r ≤ debtLimit) : ∃ n, v.Counts places n ∧ n < mantissaBound := by
  obtain ⟨n, hn⟩ := hv.onGrid.exists_counts hv.nonneg
  have hhundred : v.value * 100 ≤ 1000000000000000 :=
    le_trans (mul_le_mul_of_nonneg_left (by have := value_nonneg.mpr hr; linarith)
      (value_nonneg.mpr hv.nonneg)) hlimit
  have hle : (n : Rat) ≤ 10000000000000000000 := by
    rw [value_of_counts hn] at hhundred
    linarith
  have hle : n ≤ 10000000000000000000 := by exact_mod_cast hle
  exact ⟨n, hn, Nat.lt_of_le_of_lt hle (by decide)⟩

/-- **Taking from an amount** is exact. -/
theorem exists_minus (hv : AmountOnChain v) (hamount : AmountOnChain amount) (hle : amount ≤ v)
    (hr : .zero ≤ r) (hlimit : debtAt v r ≤ debtLimit) :
    ∃ c, v.minus amount = .ok c ∧ AmountOnChain c ∧ amount.value + c.value = v.value := by
  obtain ⟨n, hn, hfit⟩ := hv.exists_counts hr hlimit
  obtain ⟨m, hm⟩ := hamount.onGrid.exists_counts hamount.nonneg
  have hmn := (hm.le_iff hn).mp hle
  obtain ⟨c, hc, hcount⟩ := exists_sub?_of_counts (by decide) hn hm hmn hfit
  refine ⟨c, minus_eq_ok.mpr hc, ⟨hcount.nonneg, hcount.onGrid⟩, ?_⟩
  rw [value_of_counts hcount, value_of_counts hm, value_of_counts hn, Nat.cast_sub hmn]
  ring

end Capacity

namespace AuctionState

variable {curve : RateCurve} {p : EpochParams} {s t u : AuctionState} {amount : Decimal}

/-! ## What was sown -/

/-- What an action lends, if it is a sow that was made: the amount that was asked for. -/
def lentBy : Action → Outcome Effect → Rat
  | .sow amount, .ok _ => amount.value
  | _, _ => 0

/-- What an action issues, if it is a sow that was made: the debt it answers with. -/
def issuedBy : Action → Outcome Effect → Rat
  | .sow _, .ok (.sown preview) => preview.debt.value
  | _, _ => 0

/-- **The amount that was sown** by all sows that were made. -/
def sown (actions : List Action) (outcomes : List (Outcome Effect)) : Rat :=
  (List.zipWith lentBy actions outcomes).sum

/-- **The debt that was issued** by all sows that were made. -/
def issued (actions : List Action) (outcomes : List (Outcome Effect)) : Rat :=
  (List.zipWith issuedBy actions outcomes).sum

/-- **A fair outcome**: a sow that is made lends what was asked for, and issues no less debt. -/
def Fair (a : Action) (o : Outcome Effect) : Prop :=
  ∀ amount effect, a = .sow amount → o = .ok effect →
    ∃ preview, effect = .sown preview ∧ preview.amount = amount ∧ amount ≤ preview.debt

/-! ## The account -/

/-- **An account between two snapshots**: `lent` is taken from the capacity, which is all that
happens to it below equilibrium, and `debt` from the ceiling. -/
structure Accounts (p : EpochParams) (lent debt : Rat) (s t : AuctionState) : Prop where
  capacity_le : lent + t.capacity.value ≤ s.capacity.value
  capacity_eq : p.aboveEquilibrium = false → lent + t.capacity.value = s.capacity.value
  ceiling_le : 100 * debt + t.ceiling ≤ s.ceiling

/-- Where nothing happens, nothing is taken. -/
theorem Accounts.refl (p : EpochParams) (s : AuctionState) : Accounts p 0 0 s s where
  capacity_le := by rw [zero_add]
  capacity_eq _ := by rw [zero_add]
  ceiling_le := by rw [mul_zero, zero_add]

/-- **Accounts add up.** -/
theorem Accounts.trans {lent lent' debt debt' : Rat} (h : Accounts p lent debt s t)
    (h' : Accounts p lent' debt' t u) : Accounts p (lent + lent') (debt + debt') s u where
  capacity_le := by
    have h₁ := h.capacity_le
    have h₂ := h'.capacity_le
    linarith
  capacity_eq hbelow := by
    have h₁ := h.capacity_eq hbelow
    have h₂ := h'.capacity_eq hbelow
    linarith
  ceiling_le := by
    have h₁ := h.ceiling_le
    have h₂ := h'.ceiling_le
    linarith

/-! ## What a sow does -/

/-- A sow that is not covered is refused. -/
theorem sow_of_not_covered (h : ¬(.zero < amount ∧ amount ≤ s.capacity)) :
    ∃ cause, s.sow amount = (s, Outcome.refuse cause) := by
  by_cases hpos : amount ≤ .zero
  · refine ⟨.invalidAmount amount, ?_⟩
    rw [sow, previewSow, if_pos hpos]
    rfl
  · have hshort : s.capacity < amount :=
      Decimal.not_le.mp fun hle => h ⟨Decimal.not_le.mp hpos, hle⟩
    refine ⟨.insufficientCapacity amount s.capacity, ?_⟩
    rw [sow, previewSow, if_neg hpos, if_pos hshort]
    rfl

/-- **A sow that is covered is made**: the amount that was asked for is lent and taken from the
capacity, the debt is no less than the amount, and it is taken from the ceiling. -/
theorem InOrder.exists_sow (hs : s.InOrder curve p) (hcurve : curve.OnChain) (hp : p.OnChain)
    (hgrid : amount.OnGrid places) (hpos : .zero < amount) (hle : amount ≤ s.capacity) :
    ∃ preview, s.sow amount = ({ s with capacity := preview.capacityAfter }, .ok preview) ∧
      preview.amount = amount ∧ amount ≤ preview.debt ∧
      InOrder curve p { s with capacity := preview.capacityAfter } ∧
      Accounts p amount.value preview.debt.value s
        { s with capacity := preview.capacityAfter } := by
  have hamount : AmountOnChain amount := ⟨Decimal.le_of_lt hpos, hgrid⟩
  have hrate := hs.rateOnChain hcurve hp.maxRate
  have hlimit := hs.debtAt_le hp
  have hpart : debtAt amount s.currentRate ≤ debtAt s.capacity s.currentRate :=
    mul_le_mul_of_nonneg_right (le_iff_value_le.mp hle) (le_of_lt (hundred_add_pos hrate.nonneg))
  obtain ⟨debt, hdebt, hcarries⟩ := exists_debtFor hamount hrate (le_trans hpart hlimit)
  obtain ⟨capacity, hminus, hcapacity, hsum⟩ := exists_minus hs.capacity hamount hle hrate.nonneg
    hlimit
  have haccounts : Accounts p amount.value debt.value s { s with capacity := capacity } :=
    { capacity_le := le_of_eq hsum
      capacity_eq := fun _ => hsum
      ceiling_le := by
        have hdebtle : debt.value * (100 + 0) ≤ debtAt amount s.currentRate := hcarries.le
        have hdear := debtAt_le_debtAt hamount.nonneg
          (hs.currentRate_le_dearestRate hp.maxRate.nonneg)
        calc 100 * debt.value + debtAt capacity s.dearestRate
            ≤ debtAt amount s.dearestRate + debtAt capacity s.dearestRate := by linarith
          _ = (amount.value + capacity.value) * (100 + s.dearestRate.value) := by
            rw [debtAt, debtAt, add_mul]
          _ = s.ceiling := by rw [hsum, ceiling, debtAt] }
  have horder : InOrder curve p { s with capacity := capacity } :=
    { curve_eq := hs.curve_eq
      maxRate_eq := hs.maxRate_eq
      aboveEquilibrium_eq := hs.aboveEquilibrium_eq
      offset_le := hs.offset_le
      rateAt_eq := hs.rateAt_eq
      capacity := hcapacity
      ceiling_le := by
        have hceiling := haccounts.ceiling_le
        have hnonneg := value_nonneg.mpr hcarries.onChain.nonneg
        have hbound := hs.ceiling_le
        linarith }
  refine ⟨⟨amount, s.currentRate, debt, capacity⟩, ?_, rfl,
    hcarries.self_le hamount (Decimal.le_refl _) hrate.nonneg, horder, haccounts⟩
  rw [sow, previewSow, if_neg (Decimal.not_le.mpr hpos), if_neg (Decimal.not_lt.mpr hle), hdebt,
    hminus]
  rfl

/-! ## What a run does -/

/-- What is asked for in whole millionths. -/
def Action.OnChain : Action → Prop
  | .advance => True
  | .sow amount => amount.OnGrid places

instance (a : Action) : Decidable a.OnChain :=
  match a with
  | .advance => isTrue trivial
  | .sow amount => inferInstanceAs (Decidable (amount.OnGrid places))

/-- **One action**, made or refused: the order is kept, and the account of what it lends and
issues is right. -/
theorem InOrder.perform (hs : s.InOrder curve p) (hcurve : curve.OnChain) (hp : p.OnChain)
    {a : Action} (ha : a.OnChain) :
    (s.perform a).1.InOrder curve p ∧ Fair a (s.perform a).2 ∧
      Accounts p (lentBy a (s.perform a).2) (issuedBy a (s.perform a).2) s (s.perform a).1 := by
  cases a with
  | advance =>
    obtain ⟨t, ht, hadvances⟩ := hs.exists_advances hcurve hp
    have hperform : s.perform .advance = (t, .ok .advanced) := by
      rw [AuctionState.perform, advance_of_ok ht]
      rfl
    rw [hperform]
    refine ⟨hadvances.inOrder, nofun, ?_, fun hbelow => ?_, ?_⟩
    · show 0 + t.capacity.value ≤ s.capacity.value
      rw [zero_add]
      exact le_iff_value_le.mp hadvances.capacity_le
    · show 0 + t.capacity.value = s.capacity.value
      rw [zero_add, hadvances.capacity_eq hbelow]
    · show 100 * (0 : Rat) + t.ceiling ≤ s.ceiling
      rw [mul_zero, zero_add]
      exact hadvances.ceiling_le
  | sow amount =>
    by_cases hcovered : .zero < amount ∧ amount ≤ s.capacity
    · obtain ⟨preview, hsow, hamount, hfair, horder, haccounts⟩ :=
        hs.exists_sow hcurve hp ha hcovered.1 hcovered.2
      have hperform : s.perform (.sow amount) =
          ({ s with capacity := preview.capacityAfter }, .ok (.sown preview)) := by
        rw [AuctionState.perform, hsow]
        rfl
      rw [hperform]
      refine ⟨horder, ?_, haccounts⟩
      rintro _ _ ⟨⟩ ⟨⟩
      exact ⟨preview, rfl, hamount, hfair⟩
    · obtain ⟨cause, hsow⟩ := sow_of_not_covered hcovered
      have hperform : s.perform (.sow amount) = (s, .error (.refused cause)) := by
        rw [AuctionState.perform, hsow]
        rfl
      rw [hperform]
      exact ⟨hs, nofun, Accounts.refl p s⟩

/-- **A whole run**: the order is kept, and the account of all that was lent and issued is
right. The induction is on the actions. -/
theorem InOrder.run (hcurve : curve.OnChain) (hp : p.OnChain) {actions : List Action}
    (hactions : ∀ a ∈ actions, a.OnChain) (hs : s.InOrder curve p) :
    (s.run actions).1.InOrder curve p ∧
      (∀ x ∈ actions.zip (s.run actions).2, Fair x.1 x.2) ∧
      Accounts p (sown actions (s.run actions).2) (issued actions (s.run actions).2) s
        (s.run actions).1 := by
  induction actions generalizing s with
  | nil => exact ⟨hs, nofun, Accounts.refl p s⟩
  | cons a actions ih =>
    obtain ⟨horder, hfair, haccounts⟩ := hs.perform hcurve hp (hactions a (List.mem_cons_self ..))
    obtain ⟨hlast, hrest, htotal⟩ := ih (fun b hb => hactions b (List.mem_cons_of_mem a hb)) horder
    have hrun : s.run (a :: actions) = (((s.perform a).1.run actions).1,
      (s.perform a).2 :: ((s.perform a).1.run actions).2) := rfl
    rw [hrun, sown, issued, List.zipWith_cons_cons, List.zipWith_cons_cons, List.sum_cons,
      List.sum_cons, List.zip_cons_cons]
    exact ⟨hlast, List.forall_mem_cons.mpr ⟨hfair, hrest⟩, haccounts.trans htotal⟩

/-- **The debt ceiling.** From any capture with parameters on chain, and in any run of steps
and sows, made or refused: the capacity stays an amount in whole millionths; every sow that is
made lends the amount that was asked for, and issues no less debt; no more is sown than the
capacity that was captured. Above equilibrium the debt issued and the debt the capacity left
makes for are within what the parameters allow; below, what was sown and what is left are the
base capacity. -/
theorem capture_run (hcurve : curve.OnChain) (hp : p.OnChain) (here : Block) :
    ∃ start, capture curve p here = .ok start ∧
      ∀ actions : List Action, (∀ a ∈ actions, a.OnChain) →
        AmountOnChain (start.run actions).1.capacity ∧
        (∀ amount effect, (.sow amount, .ok effect) ∈ actions.zip (start.run actions).2 →
          ∃ preview, effect = .sown preview ∧ preview.amount = amount ∧
            amount ≤ preview.debt) ∧
        sown actions (start.run actions).2 ≤ start.capacity.value ∧
        (p.aboveEquilibrium = true →
          issued actions (start.run actions).2 + (start.run actions).1.issuable / 100 ≤
            p.issuable / 100) ∧
        (p.aboveEquilibrium = false →
          sown actions (start.run actions).2 + (start.run actions).1.capacity.value =
            p.baseCapacity.value) := by
  obtain ⟨start, hstart, horder, -⟩ := exists_capture_inOrder here hcurve hp
  refine ⟨start, hstart, fun actions hactions => ?_⟩
  obtain ⟨hlast, hfair, haccounts⟩ := horder.run hcurve hp hactions
  have hleft := value_nonneg.mpr hlast.capacity.nonneg
  have hcapacity := haccounts.capacity_le
  refine ⟨hlast.capacity, fun amount effect hmem => hfair _ hmem amount effect rfl rfl,
    by linarith, fun habove => ?_, fun hbelow => ?_⟩
  · have hallowed : start.ceiling ≤ p.issuable := horder.ceiling_le
    have hceiling := haccounts.ceiling_le
    rw [hlast.ceiling_above habove] at hceiling
    linarith
  · rw [haccounts.capacity_eq hbelow, capacity_of_capture hstart hbelow]

/-- At ten percent: 100 is sown at the start, a block passes, 2000 is refused, and 500 is sown,
so 600 together. The debt of the 600 and the debt that the capacity left makes for are just
below the 1100 that are allowed. -/
theorem capture_run_tenPercent :
    let start : AuctionState := ⟨⟨100⟩, 0, .ofUInt32 10, .one, ⟨false, 1089108910, 6, by decide,
      by decide⟩, true, .standard⟩
    let actions : List Action :=
      [.sow (.ofUInt32 100), .advance, .sow (.ofUInt32 2000), .sow (.ofUInt32 500)]
    let run := start.run actions
    capture .standard .tenPercent ⟨100⟩ = .ok start ∧ sown actions run.2 = 600 ∧
      sown actions run.2 ≤ start.capacity.value ∧
      issued actions run.2 = 614970770 / 1000000 ∧
      issued actions run.2 + run.1.issuable / 100 ≤ EpochParams.tenPercent.issuable / 100 ∧
      EpochParams.tenPercent.issuable / 100 = 1100 := by
  intro start actions run
  have hstart : capture .standard .tenPercent ⟨100⟩ = .ok start := by decide +kernel
  obtain ⟨s, hs, hrun⟩ := capture_run RateCurve.onChain_standard EpochParams.onChain_tenPercent
    ⟨100⟩
  obtain rfl : s = start := Except.ok.inj (hs.symm.trans hstart)
  obtain ⟨-, -, hsown, habove, -⟩ := hrun actions (by decide)
  exact ⟨hstart, by decide +kernel, hsown, by decide +kernel, habove rfl, by decide +kernel⟩

end AuctionState

end StakeAccounting

import StakeAccounting.Proofs.Decimal.Exact
import StakeAccounting.Proofs.Selection.Shape

/-!
# Selecting everything

What a ledger holds is counted twice. `Ledger.totals` adds up its lots from the oldest on, base
weights and accrued weights apart, and adds the two sums in the end. A selection of everything
takes the lots one by one, as they are arranged, adds the two weights of each lot first, and
then adds up the removals. The two agree only where no sum is rounded, and then they have to:
that is `Selector.ExactSums`, exactness of all sums of some of the lots, of one part or of the
two weights mixed.

With it, drawing the total from the lots draws each of them whole (`takesAll_of_draw`): what
is left after a lot is the sum of the others, so it reaches zero with the last lot and not
before. A lot that is drawn whole gives up what it stores and what accrued on it
(`Selector.TakesAll`), and both ways of adding up are folds with exact sums.
`Selector.select_everything` is the agreement.
-/

namespace StakeAccounting

/-- The stake weight that accrued on a lot, or zero where it is out of range. -/
def Lot.accruedOrZero (l : Lot) (now : Epoch) (accrualRate : Decimal) : Decimal :=
  (l.accruedStakeWeight now accrualRate).answer?.getD .zero

theorem Lot.accruedOrZero_of_ok {l : Lot} {now : Epoch} {accrualRate accrued : Decimal}
    (h : l.accruedStakeWeight now accrualRate = .ok accrued) :
    l.accruedOrZero now accrualRate = accrued := by
  rw [accruedOrZero, h]
  rfl

/-! ## The sums over a ledger -/

namespace LedgerTotals

variable {now : Epoch} {accrualRate : Decimal}

/-- **The sums over lots** are there where the sums of their parts are, and are these. -/
theorem addAll_eq_ok {ls : List Lot} {a b y w c : Decimal}
    (haccrued : ∀ l ∈ ls, l.accruedStakeWeight now accrualRate =
      .ok (l.accruedOrZero now accrualRate)) :
    ∀ {start : LedgerTotals},
      (ls.map (·.rawAmount)).foldlM Decimal.plus start.rawAmount = .ok a →
      (ls.map (·.baseValue)).foldlM Decimal.plus start.baseValue = .ok b →
      (ls.map (·.yieldRate)).foldlM Decimal.plus start.yieldRate = .ok y →
      (ls.map (·.stakeWeight)).foldlM Decimal.plus start.baseStakeWeight = .ok w →
      (ls.map (·.accruedOrZero now accrualRate)).foldlM Decimal.plus start.accruedStakeWeight =
        .ok c →
      ls.foldlM (add now accrualRate) start = .ok ⟨a, b, y, w, c⟩ := by
  induction ls with
  | nil =>
    intro start ha hb hy hw hc
    cases ha
    cases hb
    cases hy
    cases hw
    cases hc
    rfl
  | cons l ls ih =>
    intro start ha hb hy hw hc
    obtain ⟨a', ha', ha⟩ := Outcome.bind_eq_ok.mp ha
    obtain ⟨b', hb', hb⟩ := Outcome.bind_eq_ok.mp hb
    obtain ⟨y', hy', hy⟩ := Outcome.bind_eq_ok.mp hy
    obtain ⟨w', hw', hw⟩ := Outcome.bind_eq_ok.mp hw
    obtain ⟨c', hc', hc⟩ := Outcome.bind_eq_ok.mp hc
    have hadd : add now accrualRate start l = .ok ⟨a', b', y', w', c'⟩ := by
      simp only [add, Outcome.bind_eq_ok]
      exact ⟨a', ha', b', hb', y', hy', w', hw', _, haccrued l List.mem_cons_self, c', hc', rfl⟩
    exact Outcome.bind_eq_ok.mpr ⟨_, hadd,
      ih (fun x hx => haccrued x (List.mem_cons_of_mem l hx)) ha hb hy hw hc⟩

end LedgerTotals

namespace Selector

variable {s : Selector} {t : Token} {now : Epoch}

/-- **Lots whose sums are exact**, whichever of the lots are added up. -/
structure ExactSums (s : Selector) (now : Epoch) (ls : List Lot) : Prop where
  /-- The sums of amounts are decimals. -/
  rawAmount : Decimal.SumsExact (ls.map fun l => l.rawAmount.quanta)
  /-- The sums of base values are decimals. -/
  baseValue : Decimal.SumsExact (ls.map fun l => l.baseValue.quanta)
  /-- The sums of yield rates are decimals. -/
  yieldRate : Decimal.SumsExact (ls.map fun l => l.yieldRate.quanta)
  /-- The sums of stake weights, stored and accrued ones mixed, are decimals. -/
  stakeWeight : Decimal.SumsExact ((ls.map fun l => l.stakeWeight.quanta) ++
    ls.map fun l => (l.accruedOrZero now s.accrualRate).quanta)

/-- **A removal takes all that a lot has**: what it stores, and what accrued on it. -/
structure TakesAll (s : Selector) (now : Epoch) (l : Lot) (d : LotDelta) : Prop
    extends d.Empties l where
  /-- The weight that accrued is taken, and both weights together. -/
  accrued_eq : ∃ accrued, l.accruedStakeWeight now s.accrualRate = .ok accrued ∧
    d.accruedStakeWeight = -accrued ∧
    ∃ weight, l.stakeWeight.plus accrued = .ok weight ∧ d.stakeWeight = -weight

/-! ## Drawing all lots -/

/-- **The split of the whole amount** takes all that the lot has. -/
theorem takesAll_of_split {l : Lot} {d : LotDelta} (h : s.split t now l l.rawAmount = .ok d) :
    s.TakesAll now l d := by
  refine ⟨empties_of_split h, ?_⟩
  obtain ⟨baseValue, yieldRate, base, grown, accrued, stakeWeight, hshare, hgrown, haccrued,
    hweight, rfl⟩ := split_eq_ok h
  obtain ⟨-, rfl, rfl, rfl⟩ | ⟨hpart, -⟩ := shareOf_cases hshare
  · exact ⟨accrued, Outcome.bind_eq_ok.mpr ⟨grown, Decimal.times_eq_ok.mpr hgrown,
      Decimal.times_eq_ok.mpr haccrued⟩, rfl, stakeWeight, Decimal.plus_eq_ok.mpr hweight, rfl⟩
  · exact absurd rfl hpart

/-- **Drawing the sum of the amounts** draws every lot whole. The induction is on the lots, and
what remains to be drawn is the sum of those behind. -/
theorem takesAll_of_draw {ls : List Lot} : ∀ {remaining : Decimal} {totals sums : DeltaTotals}
    {ds : List LotDelta}, (∀ l ∈ ls, .zero < l.rawAmount) →
      Decimal.SumsExact (ls.map fun l => l.rawAmount.quanta) →
      remaining.quanta = (ls.map fun l => l.rawAmount.quanta).sum →
      s.draw t now remaining totals ls = .ok (sums, ds) →
        List.Forall₂ (s.TakesAll now) ls ds := by
  induction ls with
  | nil =>
    intro remaining totals sums ds _ _ _ h
    cases h
    exact .nil
  | cons l ls ih =>
    intro remaining totals sums ds hpos hexact hall h
    obtain ⟨d, next, left, hd, -, hleft, hcases⟩ := draw_cons_eq_ok.mp h
    have hrest : ∀ x ∈ ls, .zero < x.rawAmount := fun x hx => hpos x (List.mem_cons_of_mem l hx)
    have hrestpos : ∀ q ∈ ls.map fun l => l.rawAmount.quanta, 0 < q := fun q hq => by
      obtain ⟨x, hx, rfl⟩ := List.mem_map.mp hq
      exact hrest x hx
    have hnonneg : 0 ≤ (ls.map fun l => l.rawAmount.quanta).sum :=
      List.sum_nonneg fun q hq => Int.le_of_lt (hrestpos q hq)
    have hothers : Decimal.SumsExact (ls.map fun l => l.rawAmount.quanta) :=
      hexact.sublist (List.sublist_cons_self _ _)
    rw [List.map_cons, List.sum_cons] at hall
    have hwhole : l.rawAmount.min remaining = l.rawAmount := by
      unfold Decimal.min
      rw [if_neg]
      rw [Decimal.lt_def]
      omega
    rw [hwhole] at hd hleft
    have hdiff : remaining.quanta - l.rawAmount.quanta =
        (ls.map fun l => l.rawAmount.quanta).sum := by omega
    have hq := Decimal.quanta_minus_of_exact (hdiff ▸ hothers.exact) hleft
    obtain ⟨hzero, -, rfl⟩ | ⟨-, others, hdraw, rfl⟩ := hcases
    · -- nothing is left, so no lot is behind
      rw [Decimal.isZero_iff] at hzero
      obtain rfl : ls = [] := by
        by_contra hne
        have hsum := List.sum_pos _ hrestpos (by rwa [Ne, List.map_eq_nil_iff])
        omega
      exact .cons (takesAll_of_split hd) .nil
    · exact .cons (takesAll_of_split hd) (ih hrest hothers (hq.trans hdiff) hdraw)

/-! ## Both sums -/

variable {ls visited : List Lot} {ds : List LotDelta}

/-- Lots in another order have the same exact sums. -/
theorem ExactSums.perm {ms : List Lot} (h : s.ExactSums now ls) (hperm : ls.Perm ms) :
    s.ExactSums now ms where
  rawAmount := h.rawAmount.perm (hperm.map _)
  baseValue := h.baseValue.perm (hperm.map _)
  yieldRate := h.yieldRate.perm (hperm.map _)
  stakeWeight := h.stakeWeight.perm ((hperm.map _).append (hperm.map _))

/-- The two weights of a lot have an exact sum. -/
theorem ExactSums.exact_weight (h : s.ExactSums now ls) {l : Lot} (hl : l ∈ ls) :
    Decimal.Exact (l.stakeWeight.quanta + (l.accruedOrZero now s.accrualRate).quanta) :=
  h.stakeWeight.add.exact_of_mem (List.mem_map.mpr ⟨l, hl, rfl⟩)

/-- **The sum of a part of the removals** is that part of the lots, negated, if its sums are
exact. -/
theorem quanta_sum_of_removals {part : LotDelta → Decimal} {q : Lot → Int} {c : Decimal}
    (hexact : Decimal.SumsExact (visited.map q))
    (hpart : ds.map (fun d => (part d).quanta) = visited.map fun l => -q l)
    (hc : Decimal.sum (ds.map part) = .ok c) : c.quanta = -(visited.map q).sum := by
  have hneg : ds.map (fun d => (part d).quanta) = (visited.map q).map Neg.neg := by
    rw [hpart, List.map_map]
    rfl
  have hexact' : Decimal.SumsExact (ds.map fun d => (part d).quanta) :=
    hneg ▸ Decimal.sumsExact_neg_iff.mpr hexact
  rw [Decimal.quanta_sum_of_exact hexact' hc, hneg, List.sum_neg]

/-- **The sums of removals** that take all the lots have are those of the lots, negated. -/
theorem quanta_addAll_of_takesAll {sums : DeltaTotals} (hexact : s.ExactSums now visited)
    (htakes : List.Forall₂ (s.TakesAll now) visited ds)
    (hsums : ds.foldlM DeltaTotals.add .zero = .ok sums) :
    sums.amount.quanta = -(visited.map fun l => l.rawAmount.quanta).sum ∧
      sums.baseValue.quanta = -(visited.map fun l => l.baseValue.quanta).sum ∧
      sums.yieldRate.quanta = -(visited.map fun l => l.yieldRate.quanta).sum ∧
      sums.stakeWeight.quanta = -(visited.map fun l =>
        l.stakeWeight.quanta + (l.accruedOrZero now s.accrualRate).quanta).sum := by
  obtain ⟨hamount, hbase, hyield, hstake⟩ := DeltaTotals.sums_of_addAll hsums
  refine ⟨quanta_sum_of_removals hexact.rawAmount ?_ hamount,
    quanta_sum_of_removals hexact.baseValue ?_ hbase,
    quanta_sum_of_removals hexact.yieldRate ?_ hyield,
    quanta_sum_of_removals hexact.stakeWeight.add ?_ hstake⟩
  · exact map_eq_of_forall₂ htakes fun l _ d hd => by rw [hd.amount_eq, Decimal.quanta_neg]
  · exact map_eq_of_forall₂ htakes fun l _ d hd => by rw [hd.baseValue_eq, Decimal.quanta_neg]
  · exact map_eq_of_forall₂ htakes fun l _ d hd => by rw [hd.yieldRate_eq, Decimal.quanta_neg]
  · refine map_eq_of_forall₂ htakes fun l hl d hd => ?_
    obtain ⟨accrued, haccrued, -, weight, hweight, hd⟩ := hd.accrued_eq
    have hpair := hexact.exact_weight hl
    rw [Lot.accruedOrZero_of_ok haccrued] at hpair ⊢
    obtain ⟨c, hc, hq⟩ := Decimal.exists_plus_of_exact hpair
    rw [hweight] at hc
    cases hc
    rw [hd, Decimal.quanta_neg, hq]

end Selector

namespace Ledger

variable {s : Selector} {now : Epoch} {g : Ledger}

/-- **The sums over a ledger** are exact where all of its sums are, and nothing accrued is out of
range. -/
theorem exists_totals_of_exact (hexact : s.ExactSums now g.lots)
    (haccrued : ∀ l ∈ g.lots, l.accruedStakeWeight now s.accrualRate =
      .ok (l.accruedOrZero now s.accrualRate)) :
    ∃ t w, g.totals now s.accrualRate = .ok t ∧ t.stakeWeight = .ok w ∧
      t.rawAmount.quanta = (g.lots.map fun l => l.rawAmount.quanta).sum ∧
      t.baseValue.quanta = (g.lots.map fun l => l.baseValue.quanta).sum ∧
      t.yieldRate.quanta = (g.lots.map fun l => l.yieldRate.quanta).sum ∧
      w.quanta = (g.lots.map fun l =>
        l.stakeWeight.quanta + (l.accruedOrZero now s.accrualRate).quanta).sum := by
  obtain ⟨a, ha, haq⟩ := Decimal.exists_sum_of_exact hexact.rawAmount
  obtain ⟨b, hb, hbq⟩ := Decimal.exists_sum_of_exact hexact.baseValue
  obtain ⟨y, hy, hyq⟩ := Decimal.exists_sum_of_exact hexact.yieldRate
  obtain ⟨stored, hstored, hstoredq⟩ :=
    Decimal.exists_sum_of_exact (hexact.stakeWeight.sublist (List.sublist_append_left _ _))
  obtain ⟨grown, hgrown, hgrownq⟩ :=
    Decimal.exists_sum_of_exact (hexact.stakeWeight.sublist (List.sublist_append_right _ _))
  have hweight := hexact.stakeWeight.exact
  rw [List.sum_append, ← hstoredq, ← hgrownq] at hweight
  obtain ⟨w, hw, hwq⟩ := Decimal.exists_plus_of_exact hweight
  refine ⟨⟨a, b, y, stored, grown⟩, w, LedgerTotals.addAll_eq_ok haccrued ha hb hy hstored hgrown,
    hw, haq, hbq, hyq, ?_⟩
  rw [hwq, hstoredq, hgrownq, List.sum_map_add]

end Ledger

namespace Selector

variable {s : Selector} {now : Epoch} {order : SelectionOrder} {id : TokenId} {g : Ledger}

/-- **Selecting everything agrees with the totals of the ledger.** Where all sums of parts of the
lots are exact, the total amount is there, and a selection of it, in either order, draws on every
lot once and takes all that the lot has, with what accrued on it by the ledger's own account. Its
sums are then the totals of the ledger at that epoch, negated, and these are there, too. That the
lots are some, and valid, and none of them ahead, is what the selection has checked. -/
theorem select_everything (hexact : s.ExactSums now g.lots) :
    ∃ c, g.totalAmount = .ok c ∧ ∀ sel, s.select order id c g.lots now = .ok sel →
      (∃ visited, visited.Perm g.lots ∧ List.Forall₂ (s.TakesAll now) visited sel.deltas) ∧
      ∃ t w, g.totals now s.accrualRate = .ok t ∧ t.stakeWeight = .ok w ∧
        sel.total.amount.Same (-t.rawAmount) ∧ sel.total.baseValue.Same (-t.baseValue) ∧
        sel.total.yieldRate.Same (-t.yieldRate) ∧ sel.total.stakeWeight.Same (-w) := by
  obtain ⟨c, hc, hcq⟩ := Decimal.exists_sum_of_exact hexact.rawAmount
  refine ⟨c, hc, fun sel hsel => ?_⟩
  obtain ⟨-, token, available, ordered, -, hls, -, -, hordered, hdraw⟩ := select_eq_ok hsel
  have hperm := SelectionOrder.perm_arrange hordered
  have hexact' : s.ExactSums now ordered := hexact.perm hperm.symm
  have hsumeq : ∀ q : Lot → Int, (ordered.map q).sum = (g.lots.map q).sum :=
    fun q => (hperm.map q).sum_eq
  have htakes := takesAll_of_draw (hls.perm hperm.symm).amount_pos hexact'.rawAmount
    (by rw [hcq, hsumeq]) hdraw
  have haccrued : ∀ l ∈ g.lots, l.accruedStakeWeight now s.accrualRate =
      .ok (l.accruedOrZero now s.accrualRate) := fun l hl => by
    obtain ⟨d, -, hd⟩ := exists_of_forall₂ htakes.flip (hperm.mem_iff.mpr hl)
    obtain ⟨accrued, haccrued, -⟩ := hd.accrued_eq
    rw [haccrued, Lot.accruedOrZero_of_ok haccrued]
  obtain ⟨hamount, hbase, hyield, hstake⟩ :=
    quanta_addAll_of_takesAll hexact' htakes (totals_of_draw hdraw)
  obtain ⟨t, w, ht, hw, htamount, htbase, htyield, hwq⟩ :=
    Ledger.exists_totals_of_exact hexact haccrued
  refine ⟨⟨ordered, hperm, htakes⟩, t, w, ht, hw, ?_, ?_, ?_, ?_⟩
  · rw [Decimal.same_def, Decimal.quanta_neg, hamount, htamount, hsumeq]
  · rw [Decimal.same_def, Decimal.quanta_neg, hbase, htbase, hsumeq]
  · rw [Decimal.same_def, Decimal.quanta_neg, hyield, htyield, hsumeq]
  · rw [Decimal.same_def, Decimal.quanta_neg, hstake, hwq, hsumeq]

/-- Amounts of 2.5 and 0.75 tokens, of which the newer has the higher ratio, and a rate below
zero. All is selected, and its sums are the totals of the ledger. -/
theorem select_everything_two :
    let older : Lot := ⟨⟨1⟩, ⟨false, 25, 1, by decide, by decide⟩, .percent 250, .one, .percent 30⟩
    let newer : Lot := ⟨⟨4⟩, .percent 75, ⟨false, 15, 1, by decide, by decide⟩, .zero, .ofUInt32 2⟩
    let g : Ledger := ⟨TokenTable.beanId, [older, newer]⟩
    let s : Selector := ⟨.standard, -standardAccrualRate⟩
    ∃ c sel t w, g.totalAmount = .ok c ∧
      s.select .highestRatioFirst TokenTable.beanId c g.lots ⟨6⟩ = .ok sel ∧
      g.totals ⟨6⟩ s.accrualRate = .ok t ∧ t.stakeWeight = .ok w ∧
      sel.total.amount.Same (-t.rawAmount) ∧ sel.total.stakeWeight.Same (-w) := by
  intro older newer g s
  have hexact : s.ExactSums ⟨6⟩ g.lots :=
    ⟨by decide +kernel, by decide +kernel, by decide +kernel, by decide +kernel⟩
  obtain ⟨c, hc, hall⟩ :=
    @select_everything s ⟨6⟩ .highestRatioFirst TokenTable.beanId g hexact
  obtain ⟨sel, hsel⟩ : ∃ sel, (g.totalAmount >>= fun c =>
      s.select .highestRatioFirst TokenTable.beanId c g.lots ⟨6⟩) = .ok sel :=
    Outcome.exists_ok_of_answer? (by decide +kernel)
  rw [hc] at hsel
  obtain ⟨-, t, w, ht, hw, hamount, -, -, hstake⟩ := hall sel hsel
  exact ⟨c, sel, t, w, hc, hsel, ht, hw, hamount, hstake⟩

end Selector

end StakeAccounting

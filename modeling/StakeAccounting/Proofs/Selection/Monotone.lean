import StakeAccounting.Proofs.Decimal.Saturation
import StakeAccounting.Proofs.Selection.Shape

/-!
# A larger request takes more

Two requests to the same lots are drawn in the same order, and the larger one goes on at least as
long as the smaller. What has to be compared are the removals from a lot they both draw on, which
may be split by one of them and taken whole by the other, through different computations.

The order is kept by each step of a split alone: a greater amount is not a smaller fraction of the
lot, a product with a greater fraction is not rounded to less, and neither is the stake weight that
accrued on a greater yield rate (`split_takesNoMore`). Where the larger request takes all, it takes
what the lot stores, and that is what a fraction of at most one is within (`shareOf_within`).

A run of the smaller request is then followed lot by lot. Where something is left to draw, its lot
was drawn whole, so the larger request draws it whole, too, and has no less left to draw, rounded or
not (`draw_takesNoMore`). The stake weight that a lot stores is left out, as a part of the lot is
granted it anew, and that may be more than the whole lot stores.
-/

namespace StakeAccounting

/-- **A removal takes no more than another** from the same lot: of amount, base value, yield rate
and the stake weight that accrued. -/
structure LotDelta.TakesNoMore (d d' : LotDelta) : Prop where
  /-- Both take from one lot. -/
  epoch_eq : d.epoch = d'.epoch
  /-- No more of the amount. -/
  amount_le : -d.amount ≤ -d'.amount
  /-- No more base value. -/
  baseValue_le : -d.baseValue ≤ -d'.baseValue
  /-- No more yield rate. -/
  yieldRate_le : -d.yieldRate ≤ -d'.yieldRate
  /-- No more of the stake weight that accrued. -/
  accruedStakeWeight_le : -d.accruedStakeWeight ≤ -d'.accruedStakeWeight

namespace Selector

variable {s : Selector} {t : Token} {now : Epoch} {l : Lot} {d d' : LotDelta}
  {consumed consumed' : Decimal}

/-! ## One lot -/

/-- **The share that goes with a greater part** of a valid lot's amount is no smaller. -/
theorem shareOf_le_shareOf {baseValue yieldRate weight baseValue' yieldRate' weight' : Decimal}
    (hl : l.Valid) (hpos : .zero < consumed) (hle : consumed ≤ consumed')
    (hmost : consumed' ≤ l.rawAmount)
    (h : shareOf t l consumed = .ok (baseValue, yieldRate, weight))
    (h' : shareOf t l consumed' = .ok (baseValue', yieldRate', weight')) :
    baseValue ≤ baseValue' ∧ yieldRate ≤ yieldRate' := by
  obtain ⟨-, rfl, rfl, -⟩ | ⟨hpart', fraction', hfraction', hb', hy', -⟩ := shareOf_cases h'
  · -- all that the lot stores is no less than any share of it
    obtain ⟨-, hb, -, hy⟩ := shareOf_within hl hpos (Decimal.le_trans hle hmost) h
    exact ⟨hb, hy⟩
  · obtain ⟨hsame, -⟩ | ⟨-, fraction, hfraction, hb, hy, -⟩ := shareOf_cases h
    · -- no part is greater than the whole
      rw [Decimal.same_def] at hsame hpart'
      rw [Decimal.le_def] at hle hmost
      omega
    · obtain ⟨hraw, hbase, -, hyield⟩ := hl
      have hfractions : fraction ≤ fraction' :=
        Decimal.div?_le_div? (Decimal.le_of_lt hpos) hraw
          (Decimal.le_trans (Decimal.le_of_lt hpos) hle) hraw
          (Int.mul_le_mul_of_nonneg_right hle (Decimal.le_of_lt hraw)) hfraction hfraction'
      exact ⟨Decimal.mul?_le_mul? hfractions hbase hb hb',
        Decimal.mul?_le_mul? hfractions hyield hy hy'⟩

/-- **The split of a smaller part** takes no more, where nothing accrues below zero. -/
theorem split_takesNoMore (hl : l.Valid) (hrate : .zero ≤ s.accrualRate)
    (hpos : .zero < consumed) (hle : consumed ≤ consumed') (hmost : consumed' ≤ l.rawAmount)
    (h : s.split t now l consumed = .ok d) (h' : s.split t now l consumed' = .ok d') :
    d.TakesNoMore d' := by
  obtain ⟨baseValue, yieldRate, base, grown, accrued, weight, hshare, hgrown, haccrued, -, rfl⟩ :=
    split_eq_ok h
  obtain ⟨baseValue', yieldRate', base', grown', accrued', weight', hshare', hgrown', haccrued', -,
    rfl⟩ := split_eq_ok h'
  obtain ⟨hb, hy⟩ := shareOf_le_shareOf hl hpos hle hmost hshare hshare'
  have helapsed : .zero ≤ Decimal.ofUInt32 (now.elapsedSince l.epoch) := Decimal.quanta_nonneg rfl
  have ha : accrued ≤ accrued' :=
    Decimal.mul?_le_mul? (Decimal.mul?_le_mul? hy helapsed hgrown hgrown') hrate haccrued haccrued'
  constructor <;> simp only [Decimal.neg_neg] <;> assumption

/-! ## One lot after the other -/

/-- **What a smaller request draws** is followed by a larger one, removal by removal. The
induction is on the lots; it ends where nothing is left of the smaller request. -/
theorem draw_takesNoMore (hrate : .zero ≤ s.accrualRate) {ls : List Lot} :
    ∀ {requested requested' : Decimal} {totals totals' sums sums' : DeltaTotals}
      {ds ds' : List LotDelta}, .zero < requested → requested ≤ requested' →
      (∀ l ∈ ls, l.Valid) → s.draw t now requested totals ls = .ok (sums, ds) →
      s.draw t now requested' totals' ls = .ok (sums', ds') →
        ∃ first, first <+: ds' ∧ List.Forall₂ LotDelta.TakesNoMore ds first := by
  induction ls with
  | nil =>
    intro requested requested' totals totals' sums sums' ds ds' _ _ _ h _
    cases h
    exact ⟨[], List.nil_prefix, List.Forall₂.nil⟩
  | cons l ls ih =>
    intro requested requested' totals totals' sums sums' ds ds' hpos hle hls h h'
    obtain ⟨d, next, left, hd, -, hleft, hcases⟩ := draw_cons_eq_ok.mp h
    obtain ⟨d', next', left', hd', -, hleft', hcases'⟩ := draw_cons_eq_ok.mp h'
    have hl := hls l List.mem_cons_self
    have hdd' : d.TakesNoMore d' := by
      refine split_takesNoMore hl hrate (zero_lt_min hl.1 hpos) ?_ (min_le_rawAmount l requested')
        hd hd'
      rw [Decimal.le_def] at hle ⊢
      rw [Decimal.quanta_min, Decimal.quanta_min]
      omega
    obtain ⟨-, -, rfl⟩ | ⟨hmore, others, hrest, rfl⟩ := hcases
    · refine ⟨[d'], ?_, List.Forall₂.cons hdd' List.Forall₂.nil⟩
      obtain ⟨-, -, rfl⟩ | ⟨-, others', -, rfl⟩ := hcases'
      · exact List.prefix_refl _
      · exact (List.prefix_cons_inj d').mpr List.nil_prefix
    · -- the lot is drawn whole by both, so what is left is compared by what was asked for
      have hwhole := min_of_more hleft hmore
      have hwhole' : l.rawAmount.min requested' = l.rawAmount := by
        have hmin := congrArg Decimal.quanta hwhole
        rw [Decimal.quanta_min] at hmin
        rw [Decimal.le_def] at hle
        exact if_neg (by rw [Decimal.lt_def]; omega)
      rw [hwhole] at hleft
      rw [hwhole'] at hleft'
      have hlefts := Decimal.minus_le_minus hle hleft hleft'
      have hleftpos := zero_lt_left (by rwa [hwhole]) hmore
      obtain ⟨hzero, -⟩ | ⟨-, others', hrest', rfl⟩ := hcases'
      · rw [Decimal.isZero_iff] at hzero
        rw [Decimal.lt_def, Decimal.quanta_zero] at hleftpos
        rw [Decimal.le_def] at hlefts
        omega
      · obtain ⟨first, hfirst, hall⟩ := ih hleftpos hlefts
          (fun x hx => hls x (List.mem_cons_of_mem l hx)) hrest hrest'
        exact ⟨d' :: first, (List.prefix_cons_inj d').mpr hfirst, List.Forall₂.cons hdd' hall⟩

/-! ## Selections -/

variable {order : SelectionOrder} {id : TokenId} {requested requested' : Decimal} {ls : List Lot}
  {sel sel' : Selection}

/-- **A larger request takes at least as much from every lot.** It visits the lots that a smaller
one visits, first and in the same order, and its removals take no less from any of them. -/
theorem select_monotone (hrate : .zero ≤ s.accrualRate) (hle : requested ≤ requested')
    (h : s.select order id requested ls now = .ok sel)
    (h' : s.select order id requested' ls now = .ok sel') :
    sel.epochs <+: sel'.epochs ∧
      ∀ d ∈ sel.deltas, ∀ d' ∈ sel'.deltas, d.epoch = d'.epoch → d.TakesNoMore d' := by
  obtain ⟨hpos, t, -, ordered, ht, hls, -, -, hordered, hdraw⟩ := select_eq_ok h
  obtain ⟨-, t', -, ordered', ht', -, -, -, hordered', hdraw'⟩ := select_eq_ok h'
  rw [ht] at ht'
  cases ht'
  rw [hordered] at hordered'
  cases hordered'
  have hperm := SelectionOrder.perm_arrange hordered
  obtain ⟨first, hfirst, hall⟩ := draw_takesNoMore hrate hpos hle
    (fun l hl => hls.valid l (hperm.mem_iff.mp hl)) hdraw hdraw'
  constructor
  · have hepochs : first.map (·.epoch) = sel.epochs :=
      map_eq_of_forall₂ hall fun _ _ _ hdd' => hdd'.epoch_eq.symm
    rw [← hepochs]
    exact hfirst.map _
  · intro d hd d' hd' he
    obtain ⟨x, hx, hdx⟩ := exists_of_forall₂ hall.flip hd
    obtain rfl : x = d' := List.inj_on_of_nodup_map (exists_takes h').1 (hfirst.subset hx) hd'
      (hdx.epoch_eq.symm.trans he)
    exact hdx

/-- One of five tokens is asked for, and four of them. The newer lot, of three tokens, is split by
the smaller request and taken whole by the larger, which goes on to the older lot. -/
theorem select_monotone_whole :
    let ls : List Lot :=
      [⟨⟨1⟩, .ofUInt32 2, .one, .one, .one⟩, ⟨⟨2⟩, .ofUInt32 3, .one, .one, .one⟩]
    let s : Selector := ⟨.standard, standardAccrualRate⟩
    ∃ sel sel', s.select .newestFirst TokenTable.beanId .one ls ⟨4⟩ = .ok sel ∧
      s.select .newestFirst TokenTable.beanId (.ofUInt32 4) ls ⟨4⟩ = .ok sel' ∧
      sel.epochs = [⟨2⟩] ∧ sel'.epochs = [⟨2⟩, ⟨1⟩] ∧ sel.epochs <+: sel'.epochs ∧
      ∀ d ∈ sel.deltas, ∀ d' ∈ sel'.deltas, d.epoch = d'.epoch → d.TakesNoMore d' := by
  intro ls s
  obtain ⟨sel, hsel, hepochs⟩ := Outcome.map_eq_ok.mp
    (show Selection.epochs <$> s.select .newestFirst TokenTable.beanId .one ls ⟨4⟩ =
      .ok [⟨2⟩] by decide +kernel)
  obtain ⟨sel', hsel', hepochs'⟩ := Outcome.map_eq_ok.mp
    (show Selection.epochs <$> s.select .newestFirst TokenTable.beanId (.ofUInt32 4) ls ⟨4⟩ =
      .ok [⟨2⟩, ⟨1⟩] by decide +kernel)
  obtain ⟨hfirst, hall⟩ := select_monotone (by decide) (by decide) hsel hsel'
  exact ⟨sel, sel', hsel, hsel', hepochs, hepochs', hfirst, hall⟩

end Selector

end StakeAccounting

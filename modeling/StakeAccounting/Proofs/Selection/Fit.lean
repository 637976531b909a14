import StakeAccounting.Proofs.Selection.Shape

/-!
# A selection fits its ledger

A selection that was made from the lots of a ledger is to be applied to that ledger. Of the
amount, the base value and the yield rate of a lot it takes a rounded fraction, and no rounding
makes a fraction of a number exceed the number, so there is enough of all three. The stake weight
of a part is granted anew, and there may be less of it in store than is granted.

All lots but the last are emptied, and an emptied lot gives up what it stores. So it is the last
lot alone that can fall short, and only if a proper part of it is taken
(`applyDeltas_concat_of_within`). `selection_fits` says so for every selection: what its
removals are, when they can be applied, and what refuses them else.
-/

namespace StakeAccounting

/-- **A removal within its lot takes no more than there is**, and gives nothing. -/
theorem LotDelta.Within.bounds {d : LotDelta} {l : Lot} (h : d.Within l)
    (hremoval : d.isRemoval = true) :
    .zero < -d.amount ∧ -d.amount ≤ l.rawAmount ∧ .zero ≤ -d.baseValue ∧
      -d.baseValue ≤ l.baseValue ∧ .zero ≤ -d.yieldRate ∧ -d.yieldRate ≤ l.yieldRate := by
  obtain ⟨-, hbase, -, hyield⟩ := nonpos_of_isRemoval hremoval
  have htaken := h.amount_neg
  have hamount := h.amount
  have hbaseLeft := h.baseValue
  have hyieldLeft := h.yieldRate
  simp only [Decimal.lt_def, Decimal.le_def, Decimal.quanta_zero, Decimal.quanta_neg]
  omega

/-- **All removals of a selection but the last** empty a lot. -/
theorem Selector.empties_of_select {s : Selector} {order : SelectionOrder} {id : TokenId}
    {requested : Decimal} {ls : List Lot} {now : Epoch} {sel : Selection}
    (h : s.select order id requested ls now = .ok sel) :
    ∃ full d, sel.deltas = full ++ [d] ∧ ∀ c ∈ full, ∃ l ∈ ls, c.Empties l := by
  obtain ⟨hpos, t, -, ordered, -, hls, -, -, hordered, hdraw⟩ := select_eq_ok h
  have hperm := SelectionOrder.perm_arrange hordered
  have hsome : ordered ≠ [] := fun hnil =>
    lots_ne_nil_of_select h (List.nil_perm.mp (hnil ▸ hperm))
  obtain ⟨whole, last, full, d, hfirst, hds, hfull, -⟩ := empties_of_draw hpos
    (hls.perm hperm.symm).amount_pos hsome hdraw
  refine ⟨full, d, hds, fun c hc => ?_⟩
  obtain ⟨l, hl, hempties⟩ := exists_of_forall₂ hfull.flip hc
  exact ⟨l, hperm.mem_iff.mp (hfirst.subset (List.mem_append_left [last] hl)), hempties⟩

namespace Ledger

variable {g : Ledger} {ds : List LotDelta} {d : LotDelta} {l : Lot}

/-- **A removal that empties its lot is covered** by what the lot stores. -/
theorem covers_of_empties (hl : g.get? d.epoch = some l) (hd : d.Empties l) : g.Covers d := by
  rw [covers_iff hl, hd.baseStakeWeight_eq, Decimal.quanta_neg]
  omega

/-- The last removal is taken behind the others. -/
theorem applyDeltas_concat (g : Ledger) (ds : List LotDelta) (d : LotDelta) :
    g.applyDeltas (ds ++ [d]) = g.applyDeltas ds >>= fun next => next.remove d.epoch d := by
  unfold applyDeltas
  rw [List.foldlM_append]
  refine congrArg (g.applyDeltas ds >>= ·) (funext fun next => ?_)
  show (next.remove d.epoch d >>= fun after => pure after) = _
  exact bind_pure _

/-- **Removals within their lots, of which all but the last are covered**: they are taken if the
last one is covered as well, and else refused for the stake weight of its lot. -/
theorem applyDeltas_concat_of_within (hnodup : ((ds ++ [d]).map (·.epoch)).Nodup)
    (hall : ∀ c ∈ ds ++ [d], c.isRemoval = true ∧
      ∃ l, g.get? c.epoch = some l ∧ l.Valid ∧ c.Within l)
    (hcovers : ∀ c ∈ ds, g.Covers c) (hl : g.get? d.epoch = some l) :
    (-d.baseStakeWeight ≤ l.stakeWeight → ∃ after, g.applyDeltas (ds ++ [d]) = .ok after) ∧
      (l.stakeWeight < -d.baseStakeWeight → ∃ rest,
        l.stakeWeight.plus d.baseStakeWeight = .ok rest ∧ rest < .zero ∧
        g.applyDeltas (ds ++ [d]) =
          Outcome.refuseLot d.epoch (.shareOverdrawn .stakeWeight rest)) := by
  obtain ⟨hremoval, x, hx, hvalid, hwithin⟩ := hall d (by simp)
  obtain rfl : l = x := Option.some.inj (hl.symm.trans hx)
  rw [List.map_append, List.nodup_append] at hnodup
  -- the others are taken, and none of them from the lot of the last
  obtain ⟨-, next, hnext⟩ | ⟨⟨c, hc, hover⟩, -⟩ := applyDeltas_of_within hnodup.1
    fun c hc => hall c (List.mem_append_left [d] hc)
  · have hnot : d.epoch ∉ ds.map (·.epoch) := fun hmem =>
      hnodup.2.2 _ hmem _ (List.mem_singleton_self _) rfl
    have hsame : next.get? d.epoch = some l := by rw [get?_applyDeltas_of_not_mem hnot hnext, hl]
    have hlast := remove_of_within hsame hvalid hwithin hremoval
    rw [covers_iff hsame] at hlast
    rw [applyDeltas_concat, hnext]
    simp only [Decimal.lt_def, Decimal.le_def, Decimal.quanta_neg, Decimal.quanta_zero]
    obtain ⟨hcovered, htaken⟩ | ⟨hover, rest, hrest, hrefused⟩ := hlast
    · exact ⟨fun _ => htaken, fun hless => absurd hcovered (by omega)⟩
    · have hsign := Decimal.sign_of_plus hrest
      exact ⟨fun hless => absurd hover (by omega), fun _ => ⟨rest, hrest, by omega, hrefused⟩⟩
  · exact absurd (hcovers c hc) hover

variable {s : Selector} {order : SelectionOrder} {id : TokenId} {requested : Decimal}
  {now : Epoch} {sel : Selection}

/-- **A selection fits the ledger it was made from**, if nothing accrues below zero. Each of its
removals is one, from a lot that is there; it takes some of the amount, and of amount, base value
and yield rate no more than the lot has. All removals but the last empty their lots. If the last
one takes no more stake weight than its lot stores, the removals can be applied. Else it takes a
proper part of its lot, and they are refused for this lot, with the stake weight below zero that
would be left: there is no other way for them to fail. -/
theorem selection_fits (hg : g.WellFormed) (hrate : .zero ≤ s.accrualRate)
    (hsel : s.select order id requested g.lots now = .ok sel) :
    (∀ d ∈ sel.deltas, d.isRemoval = true ∧ ∃ l, g.get? d.epoch = some l ∧
      .zero < -d.amount ∧ -d.amount ≤ l.rawAmount ∧ .zero ≤ -d.baseValue ∧
      -d.baseValue ≤ l.baseValue ∧ .zero ≤ -d.yieldRate ∧ -d.yieldRate ≤ l.yieldRate) ∧
    ∃ full d l, sel.deltas = full ++ [d] ∧ g.get? d.epoch = some l ∧
      (∀ c ∈ full, ∃ x, g.get? c.epoch = some x ∧ c.Empties x) ∧
      (-d.baseStakeWeight ≤ l.stakeWeight → ∃ after, g.applyDeltas sel.deltas = .ok after) ∧
      (l.stakeWeight < -d.baseStakeWeight → -d.amount < l.rawAmount ∧ ∃ rest,
        l.stakeWeight.plus d.baseStakeWeight = .ok rest ∧ rest < .zero ∧
        g.applyDeltas sel.deltas =
          Outcome.refuseLot d.epoch (.shareOverdrawn .stakeWeight rest)) := by
  have hremovals := hg.removals_of_select hrate hsel
  constructor
  · intro d hd
    obtain ⟨hremoval, l, hl, -, hwithin⟩ := hremovals d hd
    exact ⟨hremoval, l, hl, hwithin.bounds hremoval⟩
  · obtain ⟨full, d, hds, hfull⟩ := Selector.empties_of_select hsel
    have hempties : ∀ c ∈ full, ∃ x, g.get? c.epoch = some x ∧ c.Empties x := fun c hc => by
      obtain ⟨x, hx, hcx⟩ := hfull c hc
      exact ⟨x, hcx.epoch_eq ▸ hg.sorted.get?_of_mem hx, hcx⟩
    obtain ⟨t, -, htakes⟩ := hg.takes_of_select hsel
    obtain ⟨l, hl, -, htake⟩ := htakes d (by rw [hds]; simp)
    have hnodup := (Selector.exists_takes hsel).1
    rw [hds] at hnodup hremovals
    obtain ⟨happlied, hrefused⟩ := applyDeltas_concat_of_within hnodup hremovals (fun c hc => by
      obtain ⟨x, hx, hcx⟩ := hempties c hc
      exact covers_of_empties hx hcx) hl
    rw [hds]
    exact ⟨full, d, l, rfl, hl, hempties, happlied,
      fun hover => ⟨(htake.of_overdrawn hover).1, hrefused hover⟩⟩

/-- Two of three tokens are selected. The newer lot is emptied, and half of the older one is taken,
which stores no stake weight. The removals fit their lots, and are refused for the weight. -/
theorem selection_fits_overdrawn :
    let g : Ledger := ⟨TokenTable.beanId, [⟨⟨1⟩, .ofUInt32 2, .ofUInt32 2, .zero, .one⟩,
      ⟨⟨2⟩, .one, .one, .one, .one⟩]⟩
    let s : Selector := ⟨.standard, Selector.standardAccrualRate⟩
    g.WellFormed ∧ .zero ≤ s.accrualRate ∧
      ∃ sel, s.select .newestFirst TokenTable.beanId (.ofUInt32 2) g.lots ⟨3⟩ = .ok sel ∧
        (∀ d ∈ sel.deltas, d.isRemoval = true ∧ ∃ l, g.get? d.epoch = some l ∧
          -d.amount ≤ l.rawAmount) ∧
        ∃ d ∈ sel.deltas, ∃ l, g.get? d.epoch = some l ∧ -d.amount < l.rawAmount ∧ ∃ rest,
          rest < .zero ∧ g.applyDeltas sel.deltas =
            Outcome.refuseLot d.epoch (.shareOverdrawn .stakeWeight rest) := by
  intro g s
  have hg : g.WellFormed :=
    wellFormed_of_ofLots (show ofLots TokenTable.beanId g.lots = .ok g by decide +kernel)
  have hrate : .zero ≤ s.accrualRate := by decide
  obtain ⟨sel, hsel⟩ : ∃ sel, s.select .newestFirst TokenTable.beanId (.ofUInt32 2) g.lots ⟨3⟩ =
      .ok sel := Outcome.exists_ok_of_answer? (by decide +kernel)
  have hnone : (s.select .newestFirst TokenTable.beanId (.ofUInt32 2) g.lots ⟨3⟩ >>= fun sel =>
      g.applyDeltas sel.deltas).answer? = none := by decide +kernel
  obtain ⟨hremovals, full, d, l, hds, hl, -, happlied, hrefused⟩ := selection_fits hg hrate hsel
  refine ⟨hg, hrate, sel, hsel, fun c hc => ?_, d, by rw [hds]; simp, l, hl, ?_⟩
  · obtain ⟨hremoval, x, hx, -, hle, -⟩ := hremovals c hc
    exact ⟨hremoval, x, hx, hle⟩
  · have hover : l.stakeWeight < -d.baseStakeWeight := by
      by_contra hcovered
      obtain ⟨after, hafter⟩ := happlied (Decimal.not_lt.mp hcovered)
      rw [hsel] at hnone
      change (g.applyDeltas sel.deltas).answer? = none at hnone
      rw [hafter] at hnone
      cases hnone
    obtain ⟨hpart, rest, -, hneg, hno⟩ := hrefused hover
    exact ⟨hpart, rest, hneg, hno⟩

end Ledger

end StakeAccounting

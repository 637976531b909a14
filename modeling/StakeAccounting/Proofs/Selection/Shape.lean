import StakeAccounting.Proofs.Ledger.Pointwise
import StakeAccounting.Proofs.Selection.Arrangement

/-!
# Lots are drawn whole, but for the last

A lot that does not end the drawing gives up its whole amount, and with it exactly what it
stores: its removal **empties** it (`LotDelta.Empties`). The reason is the comparison that
is made before anything is subtracted. Where less is needed than the lot has, what is needed
is drawn, nothing is left to draw, and the lot was the last; so where something is left, the
amount that was drawn is the lot's own (`min_of_more`), in its own scale, and no rounding
can have touched it. From this step `empties_of_draw` follows by induction on the lots.

Newest first, the lots that are drawn are therefore popped off the ledger like off a stack:
behind the removals no lot is left that is newer than the last one drawn on, and no older
one was touched. `select_shape` puts this beside what holds in both orders.
-/

namespace StakeAccounting

/-- **A removal empties a lot**: it takes all that the lot stores. What accrued since is not
stored, and left open. -/
structure LotDelta.Empties (d : LotDelta) (l : Lot) : Prop where
  /-- It is taken from that lot. -/
  epoch_eq : d.epoch = l.epoch
  /-- It takes the whole amount. -/
  amount_eq : d.amount = -l.rawAmount
  /-- It takes the whole base value. -/
  baseValue_eq : d.baseValue = -l.baseValue
  /-- It takes the whole yield rate. -/
  yieldRate_eq : d.yieldRate = -l.yieldRate
  /-- It takes the whole stake weight that is stored. -/
  baseStakeWeight_eq : d.baseStakeWeight = -l.stakeWeight

/-- A number without itself is nothing. -/
theorem Decimal.isZero_of_minus_self {a c : Decimal} (h : a.minus a = .ok c) :
    c.isZero = true := by
  have hn := nearest?_of_sub? (minus_eq_ok.mp h)
  rw [Int.sub_self, Int.zero_mul, nearest?_zero] at hn
  rw [isZero_iff]
  exact (Option.some.inj hn).symm

namespace Selector

variable {s : Selector} {t : Token} {now : Epoch}

/-! ## Drawing -/

/-- **The split of the whole amount** empties the lot. -/
theorem empties_of_split {l : Lot} {d : LotDelta} (h : s.split t now l l.rawAmount = .ok d) :
    d.Empties l := by
  obtain ⟨baseValue, yieldRate, base, grown, accrued, stakeWeight, hshare, -, -, -, rfl⟩ :=
    split_eq_ok h
  obtain ⟨-, rfl, rfl, rfl⟩ | ⟨hpart, -⟩ := shareOf_cases hshare
  · exact ⟨rfl, rfl, rfl, rfl, rfl⟩
  · exact absurd rfl hpart

/-- **Where something is left to draw**, the lot was drawn with its own amount. -/
theorem min_of_more {l : Lot} {remaining left : Decimal}
    (h : remaining.minus (l.rawAmount.min remaining) = .ok left) (hmore : left.isZero = false) :
    l.rawAmount.min remaining = l.rawAmount := by
  unfold Decimal.min at h ⊢
  split
  · rename_i hless
    rw [if_pos hless] at h
    rw [Decimal.isZero_of_minus_self h] at hmore
    cases hmore
  · rfl

/-- **All lots that are drawn but the last are emptied**, and the last one gives up part of
its amount or all of it. The induction is on the lots; it ends where nothing is left to draw,
or where no lot is left. -/
theorem empties_of_draw {ls : List Lot} : ∀ {remaining : Decimal} {totals sums : DeltaTotals}
    {ds : List LotDelta}, .zero < remaining → (∀ l ∈ ls, .zero < l.rawAmount) → ls ≠ [] →
      s.draw t now remaining totals ls = .ok (sums, ds) →
        ∃ whole last full d, whole ++ [last] <+: ls ∧ ds = full ++ [d] ∧
          List.Forall₂ LotDelta.Empties full whole ∧ s.Takes t now last d := by
  induction ls with
  | nil => exact fun _ _ hne => absurd rfl hne
  | cons l ls ih =>
    intro remaining totals sums ds hr hls _ h
    obtain ⟨d, next, left, hd, -, hleft, hcases⟩ := draw_cons_eq_ok.mp h
    have htakes := takes_of_split (hls l (List.mem_cons_self ..)) hr hd
    have hlast : ∃ whole last full x, whole ++ [last] <+: l :: ls ∧ [d] = full ++ [x] ∧
        List.Forall₂ LotDelta.Empties full whole ∧ s.Takes t now last x :=
      ⟨[], l, [], d, (List.prefix_cons_inj l).mpr List.nil_prefix, rfl, .nil, htakes⟩
    obtain ⟨-, -, rfl⟩ | ⟨hmore, others, hrest, rfl⟩ := hcases
    · exact hlast
    · rw [min_of_more hleft hmore] at hd
      cases ls with
      | nil =>
        cases hrest
        exact hlast
      | cons y ys =>
        obtain ⟨whole, last, full, x, hfirst, rfl, hfull, hx⟩ := ih (zero_lt_left hleft hmore)
          (fun z hz => hls z (List.mem_cons_of_mem l hz)) (List.cons_ne_nil y ys) hrest
        exact ⟨l :: whole, last, d :: full, x, (List.prefix_cons_inj l).mpr hfirst, rfl,
          .cons (empties_of_split hd) hfull, hx⟩

end Selector

/-! ## Applying the removals -/

namespace Ledger

variable {g after : Ledger} {ds : List LotDelta}

/-- **Lots that are emptied are dropped**, by removals from different lots. -/
theorem get?_applyDeltas_of_empties {l : Lot} {d : LotDelta} (hd : d.Empties l)
    (hnodup : (ds.map (·.epoch)).Nodup) (hmem : d ∈ ds) (hl : g.get? d.epoch = some l)
    (h : g.applyDeltas ds = .ok after) : after.get? d.epoch = none := by
  have hremoves := get?_applyDeltas_of_mem hnodup hmem h
  rw [hl] at hremoves
  generalize after.get? d.epoch = y at hremoves
  cases hremoves with
  | dropped => rfl
  | kept hleft hpos =>
    -- nothing is left of the amount without itself
    have hraw := Decimal.sign_of_plus (Lot.merge_eq_ok hleft).2.1
    rw [LotDelta.added_rawAmount, hd.amount_eq, Decimal.quanta_neg] at hraw
    omega

/-- **A ledger is a stack** for removals from its newest lots, down to one of them, that empty
all but the last: older lots are as they were, and newer ones are gone. -/
theorem Sorted.stack_of_empties {whole : List Lot} {full : List LotDelta} {d : LotDelta}
    (hg : g.Sorted) (hdown : ((full ++ [d]).map (·.epoch)).Pairwise fun a b => b < a)
    (hfull : List.Forall₂ LotDelta.Empties full whole) (hwhole : ∀ l ∈ whole, l ∈ g.lots)
    (hout : ∀ l ∈ g.lots, l.epoch ∉ (full ++ [d]).map (·.epoch) → l.epoch < d.epoch)
    (h : g.applyDeltas (full ++ [d]) = .ok after) :
    (∀ e, e < d.epoch → after.get? e = g.get? e) ∧ ∀ l ∈ after.lots, ¬ d.epoch < l.epoch := by
  have hnodup : ((full ++ [d]).map (·.epoch)).Nodup :=
    hdown.imp fun hlt => (Epoch.ne_of_lt hlt).symm
  rw [List.map_append, List.pairwise_append] at hdown
  have habove : ∀ e ∈ full.map (·.epoch), d.epoch < e := fun e he =>
    hdown.2.2 e he d.epoch (List.mem_singleton_self _)
  constructor
  · intro e he
    refine get?_applyDeltas_of_not_mem (fun hmem => ?_) h
    rw [List.map_append, List.mem_append] at hmem
    cases hmem with
    | inl hef => exact Epoch.lt_irrefl e (Epoch.lt_trans he (habove e hef))
    | inr hed => exact Epoch.ne_of_lt he (List.mem_singleton.mp hed)
  · intro l hl hnewer
    obtain ⟨x, hx⟩ : ∃ x, after.get? l.epoch = some x :=
      Option.isSome_iff_exists.mp (isSome_get?_iff.mpr (List.mem_map_of_mem hl))
    by_cases hmem : l.epoch ∈ (full ++ [d]).map (·.epoch)
    · -- the lot of this epoch was emptied, so it is not there
      rw [List.map_append, List.mem_append] at hmem
      obtain ⟨y, hy, hye⟩ := List.mem_map.mp
        (hmem.resolve_right fun hed => Epoch.ne_of_lt hnewer (List.mem_singleton.mp hed).symm)
      obtain ⟨w, hw, hyw⟩ := exists_of_forall₂ hfull.flip hy
      have hget := hyw.epoch_eq ▸ hg.get?_of_mem (hwhole w hw)
      have hnone := get?_applyDeltas_of_empties hyw hnodup (List.mem_append_left [d] hy) hget h
      rw [hye, hx] at hnone
      cases hnone
    · rw [get?_applyDeltas_of_not_mem hmem h] at hx
      have hxl := epoch_of_get? hx
      have hless := hout x (mem_of_get? hx) (hxl ▸ hmem)
      exact Epoch.lt_irrefl _ (Epoch.lt_trans hnewer (hxl ▸ hless))

end Ledger

namespace Selector

variable {s : Selector} {order : SelectionOrder} {id : TokenId} {requested : Decimal}
  {ls : List Lot} {now : Epoch} {sel : Selection}

/-! ## Selections -/

/-- **Newest first, the lots that are visited are the newest ones**, from the newest on. -/
theorem newest_of_select (h : s.select .newestFirst id requested ls now = .ok sel) :
    (sel.epochs.Pairwise fun a b => b < a) ∧
      ∀ l ∈ ls, l.epoch ∉ sel.epochs → ∀ e ∈ sel.epochs, l.epoch < e := by
  obtain ⟨ordered, drawn, hperm, -, hpairs, hfirst, hepochs⟩ := exists_visited h
  refine ⟨?_, fun l hl hout e he => ?_⟩
  · rw [hepochs, List.pairwise_map]
    exact hpairs.sublist hfirst.sublist
  · obtain ⟨x, hx, rfl⟩ := List.mem_map.mp (hepochs ▸ he)
    exact precedes_of_select h (hperm.mem_iff.mp (hfirst.subset hx)) hl (Or.inr ⟨he, hout⟩)

/-- **The shape of a selection.** The lots that are visited are different lots of those given,
and there is at least one. All but the last are emptied; the last gives up some of its
amount, and no more than it has. Newest first, the epochs go down strictly, and no lot that
is left out is newer than one that is visited; so in the ledger of the lots the removals, if
they can be applied, leave every lot older than the last one as it was, and none that is
newer: the ledger is used as a stack. -/
theorem select_shape (h : s.select order id requested ls now = .ok sel) :
    sel.epochs.Nodup ∧
    ∃ whole last full d, sel.deltas = full ++ [d] ∧ (∀ l ∈ whole ++ [last], l ∈ ls) ∧
      List.Forall₂ LotDelta.Empties full whole ∧
      d.epoch = last.epoch ∧ .zero < -d.amount ∧ -d.amount ≤ last.rawAmount ∧
      (order = .newestFirst →
        (sel.epochs.Pairwise fun a b => b < a) ∧
        (∀ l ∈ ls, l.epoch ∉ sel.epochs → ∀ e ∈ sel.epochs, l.epoch < e) ∧
        ∀ g after : Ledger, g.Sorted → g.lots.Perm ls → g.applyDeltas sel.deltas = .ok after →
          (∀ e, e < last.epoch → after.get? e = g.get? e) ∧
          ∀ l ∈ after.lots, ¬ last.epoch < l.epoch) := by
  obtain ⟨hpos, t, available, ordered, -, hls, havailable, hle, hordered, hdraw⟩ :=
    select_eq_ok h
  have hperm := SelectionOrder.perm_arrange hordered
  -- no lots would be too few for any request
  have hsome : ordered ≠ [] := by
    rintro rfl
    rw [List.nil_perm.mp hperm] at havailable
    cases havailable
    exact absurd (Int.lt_of_lt_of_le hpos hle) (Int.lt_irrefl _)
  obtain ⟨whole, last, full, d, hfirst, hds, hfull, htakes⟩ := empties_of_draw hpos
    (fun l hl => (hls.valid l (hperm.mem_iff.mp hl)).1) hsome hdraw
  have hvisited : ∀ l ∈ whole ++ [last], l ∈ ls := fun l hl =>
    hperm.mem_iff.mp (hfirst.subset hl)
  have hepoch := htakes.epoch_eq
  obtain ⟨consumed, hconsumed, hmost, hsplit⟩ := htakes
  have hamount : -d.amount = consumed := by
    rw [amount_of_split hsplit, Decimal.neg_neg]
  refine ⟨(exists_takes h).1, whole, last, full, d, hds, hvisited, hfull, hepoch,
    hamount ▸ hconsumed, hamount ▸ hmost, ?_⟩
  rintro rfl
  obtain ⟨hdown, hout⟩ := newest_of_select h
  refine ⟨hdown, hout, fun g after hg hgls hafter => ?_⟩
  have hlast : d.epoch ∈ sel.epochs := List.mem_map.mpr ⟨d, by rw [hds]; simp, rfl⟩
  unfold Selection.epochs at hdown hout hlast
  rw [hds] at hdown hout hlast hafter
  rw [← hepoch]
  exact hg.stack_of_empties hdown hfull
    (fun l hl => hgls.mem_iff.mpr (hvisited l (List.mem_append_left [last] hl)))
    (fun l hl hnot => hout l (hgls.mem_iff.mp hl) hnot d.epoch hlast) hafter

/-- Two of six tokens are withdrawn. The newest lot, of one token, is emptied, the one before
it gives up one of its three, and the oldest is as it was. -/
theorem select_shape_two :
    let ls : List Lot := [⟨⟨1⟩, .ofUInt32 2, .one, .one, .one⟩, ⟨⟨7⟩, .one, .one, .one, .one⟩,
      ⟨⟨4⟩, .ofUInt32 3, .one, .one, .one⟩]
    ∃ sel g after,
      (Selector.mk .standard standardAccrualRate).select .newestFirst TokenTable.beanId
        (.ofUInt32 2) ls ⟨9⟩ = .ok sel ∧
      Ledger.ofLots TokenTable.beanId ls = .ok g ∧ g.applyDeltas sel.deltas = .ok after ∧
      sel.epochs = [⟨7⟩, ⟨4⟩] ∧ sel.epochs.Nodup ∧ (sel.epochs.Pairwise fun a b => b < a) ∧
      (∀ e, e < ⟨4⟩ → after.get? e = g.get? e) ∧ ∀ l ∈ after.lots, ¬ (⟨4⟩ : Epoch) < l.epoch := by
  intro ls
  obtain ⟨⟨sel, g, after⟩, hrun⟩ : ∃ p : Selection × Ledger × Ledger,
      ((Selector.mk .standard standardAccrualRate).select .newestFirst TokenTable.beanId
        (.ofUInt32 2) ls ⟨9⟩ >>= fun sel => Ledger.ofLots TokenTable.beanId ls >>= fun g =>
          g.applyDeltas sel.deltas >>= fun after => pure (sel, g, after)) = .ok p :=
    Outcome.exists_ok_of_answer? (by decide +kernel)
  obtain ⟨sel', hsel, hrun⟩ := Outcome.bind_eq_ok.mp hrun
  obtain ⟨g', hg, hrun⟩ := Outcome.bind_eq_ok.mp hrun
  obtain ⟨after', hafter, hrun⟩ := Outcome.bind_eq_ok.mp hrun
  cases hrun
  have hepochs : sel.epochs = [⟨7⟩, ⟨4⟩] := by
    have heval : Selection.epochs <$> (Selector.mk .standard standardAccrualRate).select
        .newestFirst TokenTable.beanId (.ofUInt32 2) ls ⟨9⟩ = .ok [⟨7⟩, ⟨4⟩] := by decide +kernel
    rw [hsel] at heval
    exact Except.ok.inj heval
  obtain ⟨hnodup, whole, last, full, d, hds, -, -, hd, -, -, hnewest⟩ := select_shape hsel
  obtain ⟨hdown, -, hstack⟩ := hnewest rfl
  have hlast : last.epoch = ⟨4⟩ := by
    have hends := congrArg List.getLast? hepochs
    rw [Selection.epochs, hds, List.map_append, List.map_singleton, List.getLast?_concat] at hends
    exact hd.symm.trans (Option.some.inj hends)
  have hsorted := (Ledger.wellFormed_of_ofLots hg).sorted
  have hperm : g.lots.Perm ls := by
    have heval : Ledger.lots <$> Ledger.ofLots TokenTable.beanId ls =
        .ok [ls[0], ls[2], ls[1]] := by decide +kernel
    rw [hg] at heval
    rw [Except.ok.inj heval]
    exact (List.Perm.swap ..).cons _
  obtain ⟨hold, hnew⟩ := hstack g after hsorted hperm hafter
  rw [hlast] at hold hnew
  exact ⟨sel, g, after, hsel, hg, hafter, hepochs, hnodup, hdown, hold, hnew⟩

end Selector

end StakeAccounting

import StakeAccounting.Proofs.Selection.Draw

/-!
# Selections

A selection is made from a **snapshot** of lots: valid, none of them ahead, and of
different epochs (`Selector.Snapshot`). `select_eq_ok` lists the checks a selection has
passed, and its removals are from different lots of the snapshot (`exists_takes`), within
what these have. From a snapshot of a known token only the last check is open, whether
the lots suffice (`select_of_snapshot`).

On a grid all of it is exact, in whatever scales the amounts are written. What is
available is the sum of the amounts, so a request is refused for the balance exactly where
it is greater than that; the removals add up to the request, and so does the total that is
reported; and what the removals leave in the ledger of the lots is the difference
(`Selector.select_exact`). None of this depends on the order the lots are drawn in.
-/

namespace StakeAccounting

namespace Selector

variable {s : Selector} {t : Token} {now : Epoch}

/-! ## Snapshots -/

/-- **A snapshot of lots**, as selections are made from. -/
structure Snapshot (now : Epoch) (ls : List Lot) : Prop where
  /-- Every lot is valid. -/
  valid : ∀ l ∈ ls, l.Valid
  /-- No lot is of an epoch that lies ahead. -/
  notAhead : ∀ l ∈ ls, ¬ now < l.epoch
  /-- No two lots are of the same epoch. -/
  nodup : (ls.map (·.epoch)).Nodup

/-- **The check of the lots** compares their epochs with those that were seen before. -/
theorem checkSnapshot_eq_ok {ls : List Lot} : ∀ {seen : List Epoch},
    checkSnapshot now seen ls = .ok () ↔
      (∀ l ∈ ls, l.Valid ∧ ¬ now < l.epoch ∧ l.epoch ∉ seen) ∧ (ls.map (·.epoch)).Nodup := by
  induction ls with
  | nil =>
    intro seen
    exact iff_of_true rfl ⟨fun l hl => absurd hl List.not_mem_nil, List.nodup_nil⟩
  | cons l ls ih =>
    intro seen
    show (l.check >>= fun _ => _) = _ ↔ _
    rw [Outcome.bind_eq_ok]
    constructor
    · rintro ⟨_, hcheck, h⟩
      split at h
      · cases h
      · rename_i hnow
        split at h
        · cases h
        · rename_i hseen
          obtain ⟨hall, hnodup⟩ := ih.mp h
          refine ⟨fun x hx => ?_, List.nodup_cons.mpr ⟨fun hmem => ?_, hnodup⟩⟩
          · cases List.mem_cons.mp hx with
            | inl hxl => exact hxl ▸ ⟨l.check_eq_ok.mp hcheck, hnow, hseen⟩
            | inr hxs =>
              obtain ⟨hvalid, hxnow, hxseen⟩ := hall x hxs
              exact ⟨hvalid, hxnow, fun hmem => hxseen (List.mem_cons_of_mem _ hmem)⟩
          · obtain ⟨x, hx, he⟩ := List.mem_map.mp hmem
            exact (hall x hx).2.2 (he ▸ List.mem_cons_self ..)
    · rintro ⟨hall, hnodup⟩
      obtain ⟨hvalid, hnow, hseen⟩ := hall l (List.mem_cons_self ..)
      obtain ⟨hnew, hnodup⟩ := List.nodup_cons.mp hnodup
      refine ⟨(), l.check_eq_ok.mpr hvalid, ?_⟩
      rw [if_neg hnow, if_neg hseen]
      refine ih.mpr ⟨fun x hx => ?_, hnodup⟩
      obtain ⟨hxvalid, hxnow, hxseen⟩ := hall x (List.mem_cons_of_mem l hx)
      refine ⟨hxvalid, hxnow, fun hmem => ?_⟩
      cases List.mem_cons.mp hmem with
      | inl he => exact hnew (List.mem_map.mpr ⟨x, hx, he⟩)
      | inr hmem => exact hxseen hmem

theorem checkSnapshot_iff {ls : List Lot} :
    checkSnapshot now [] ls = .ok () ↔ Snapshot now ls := by
  rw [checkSnapshot_eq_ok]
  refine ⟨fun ⟨hall, hnodup⟩ => ⟨fun l hl => (hall l hl).1, fun l hl => (hall l hl).2.1, hnodup⟩,
    fun hls => ⟨fun l hl => ⟨hls.valid l hl, hls.notAhead l hl, List.not_mem_nil⟩, hls.nodup⟩⟩

/-- Every lot of a snapshot has some amount. -/
theorem Snapshot.amount_pos {ls : List Lot} (hls : Snapshot now ls) :
    ∀ l ∈ ls, .zero < l.rawAmount :=
  fun l hl => (hls.valid l hl).1

/-- The lots of a snapshot make one in any order. -/
theorem Snapshot.perm {ls ms : List Lot} (hls : Snapshot now ls) (hperm : ls.Perm ms) :
    Snapshot now ms where
  valid := fun l hl => hls.valid l (hperm.mem_iff.mpr hl)
  notAhead := fun l hl => hls.notAhead l (hperm.mem_iff.mpr hl)
  nodup := (hperm.map _).nodup_iff.mp hls.nodup

/-! ## Checks -/

variable {order : SelectionOrder} {id : TokenId} {requested available : Decimal}
  {ls : List Lot} {sel : Selection}

/-- **A selection** has passed the checks, and its removals are drawn from the lots as
they are arranged. -/
theorem select_eq_ok (h : s.select order id requested ls now = .ok sel) :
    .zero < requested ∧ ∃ t available ordered, s.table.get id = .ok t ∧ Snapshot now ls ∧
      availableAmount ls = .ok available ∧ requested ≤ available ∧
      order.arrange ls = .ok ordered ∧
      s.draw t now requested .zero ordered = .ok (sel.total, sel.deltas) := by
  unfold select at h
  split at h
  · cases h
  · rename_i hpos
    obtain ⟨t, ht, h⟩ := Outcome.bind_eq_ok.mp h
    obtain ⟨⟨⟩, hsnapshot, h⟩ := Outcome.bind_eq_ok.mp h
    obtain ⟨available, havailable, h⟩ := Outcome.bind_eq_ok.mp h
    split at h
    · cases h
    · rename_i hsuffices
      obtain ⟨ordered, hordered, h⟩ := Outcome.bind_eq_ok.mp h
      obtain ⟨⟨sums, deltas⟩, hdraw, h⟩ := Outcome.bind_eq_ok.mp h
      cases h
      rw [Decimal.le_def] at hpos
      rw [Decimal.lt_def] at hsuffices
      exact ⟨Int.not_le.mp hpos, t, available, ordered, ht, checkSnapshot_iff.mp hsnapshot,
        havailable, Int.not_lt.mp hsuffices, hordered, hdraw⟩

/-- **A selection from a snapshot** of a known token is made if the lots suffice. -/
theorem select_of_snapshot (hpos : .zero < requested) (ht : s.table.get id = .ok t)
    (hls : Snapshot now ls) (havailable : availableAmount ls = .ok available) :
    s.select order id requested ls now =
      if available < requested then Outcome.refuse (.insufficientBalance requested available)
      else (do
        let ordered ← order.arrange ls
        let (total, deltas) ← s.draw t now requested .zero ordered
        pure ⟨id, requested, total, deltas⟩) := by
  have hasked : ¬ requested ≤ .zero := Int.not_le.mpr hpos
  unfold select
  rw [if_neg hasked, ht]
  show (checkSnapshot now [] ls >>= fun _ => _) = _
  rw [checkSnapshot_iff.mpr hls]
  show (availableAmount ls >>= fun _ => _) = _
  rw [havailable]
  rfl

/-- **The removals of a selection** take from different lots of the snapshot, all of
them valid. -/
theorem exists_takes (h : s.select order id requested ls now = .ok sel) :
    (sel.deltas.map (·.epoch)).Nodup ∧ ∃ t, s.table.get id = .ok t ∧
      ∀ d ∈ sel.deltas, ∃ l ∈ ls, l.Valid ∧ s.Takes t now l d := by
  obtain ⟨hpos, t, available, ordered, ht, hls, -, -, hordered, hdraw⟩ := select_eq_ok h
  have hperm := SelectionOrder.perm_arrange hordered
  have harranged : Snapshot now ordered := hls.perm hperm.symm
  obtain ⟨drawn, hfirst, htakes⟩ := takes_of_draw hpos harranged.amount_pos hdraw
  refine ⟨?_, t, ht, fun d hd => ?_⟩
  · rw [epochs_of_takes htakes]
    exact harranged.nodup.sublist (hfirst.sublist.map _)
  · obtain ⟨l, hl, htake⟩ := exists_of_forall₂ htakes hd
    have hlo := hfirst.subset hl
    exact ⟨l, hperm.mem_iff.mp hlo, harranged.valid l hlo, htake⟩

/-- **The removals of a selection by their lots**: each takes from the lot of its epoch. -/
theorem takes_of_select (h : s.select order id requested ls now = .ok sel) {d : LotDelta} {l : Lot}
    (hd : d ∈ sel.deltas) (hl : l ∈ ls) (he : d.epoch = l.epoch) :
    l.Valid ∧ ∃ t, s.Takes t now l d := by
  obtain ⟨-, t, -, htakes⟩ := exists_takes h
  obtain ⟨-, -, -, -, -, hls, -⟩ := select_eq_ok h
  obtain ⟨x, hx, hvalid, htake⟩ := htakes d hd
  obtain rfl : x = l := List.inj_on_of_nodup_map hls.nodup hx hl (htake.epoch_eq.symm.trans he)
  exact ⟨hvalid, t, htake⟩

/-- A selection is made from some lots, as some amount is asked for. -/
theorem lots_ne_nil_of_select (h : s.select order id requested ls now = .ok sel) : ls ≠ [] := by
  rintro rfl
  obtain ⟨hpos, t, available, ordered, -, -, havailable, hle, -⟩ := select_eq_ok h
  cases havailable
  exact Decimal.not_lt.mpr hle hpos

/-- **A removal of a selection** takes some of its lot. -/
theorem amount_neg_of_select (h : s.select order id requested ls now = .ok sel) {d : LotDelta}
    (hd : d ∈ sel.deltas) : d.amount.quanta < 0 := by
  obtain ⟨-, t, -, htakes⟩ := exists_takes h
  obtain ⟨l, -, hvalid, htake⟩ := htakes d hd
  exact (htake.within hvalid).amount_neg

/-! ## Exactness on a grid -/

variable {places : Nat}

/-- **What is available is the total** of the lots, where that is in range. -/
theorem availableAmount_of_sum (h : Decimal.sum (ls.map (·.rawAmount)) = .ok available) :
    availableAmount ls = .ok available := by
  unfold availableAmount
  unfold Decimal.sum at h
  generalize Decimal.zero = start at h ⊢
  induction ls generalizing start with
  | nil => exact h
  | cons l ls ih =>
    obtain ⟨next, hnext, h⟩ := Outcome.bind_eq_ok.mp h
    exact Outcome.bind_eq_ok.mpr
      ⟨next, Outcome.orRefuse_eq_ok.mpr (Decimal.plus_eq_ok.mp hnext), ih next h⟩

/-- The sum a request is checked against is exact. -/
theorem exists_availableAmount (hp : places ≤ 28) (hvalid : ∀ l ∈ ls, l.Valid)
    (hgrid : ∀ l ∈ ls, l.rawAmount.OnGrid places)
    (hlt : (ls.map fun l => l.rawAmount.quanta).sum < Decimal.gridLimit places) :
    ∃ c, availableAmount ls = .ok c ∧ c.quanta = (ls.map fun l => l.rawAmount.quanta).sum := by
  obtain ⟨c, hc, hq⟩ := Decimal.exists_sum_of_onGrid hp
    (fun l hl => ⟨hgrid l hl, Int.le_of_lt (l.valid_iff.mp (hvalid l hl)).1⟩) hlt
  exact ⟨c, availableAmount_of_sum hc, hq⟩

/-- **A selection is on the grid** of the lots and the request, which need not have room
there. -/
theorem onGrid_select (hgrid : ∀ l ∈ ls, l.rawAmount.OnGrid places)
    (hrgrid : requested.OnGrid places) (h : s.select order id requested ls now = .ok sel) :
    ∀ d ∈ sel.deltas, d.amount.OnGrid places := by
  obtain ⟨-, t, available, ordered, -, -, -, -, hordered, hdraw⟩ := select_eq_ok h
  have hperm := SelectionOrder.perm_arrange hordered
  exact onGrid_draw hrgrid (fun l hl => hgrid l (hperm.mem_iff.mp hl)) hdraw

/-- **A selection takes what was asked for**, and its total says so. -/
theorem amount_select (hp : places ≤ 28) (hgrid : ∀ l ∈ ls, l.rawAmount.OnGrid places)
    (hrgrid : requested.OnGrid places)
    (hlt : (ls.map fun l => l.rawAmount.quanta).sum < Decimal.gridLimit places)
    (h : s.select order id requested ls now = .ok sel) :
    (sel.deltas.map fun d => d.amount.quanta).sum = -requested.quanta ∧
      sel.total.amount.quanta = -requested.quanta ∧ ∀ d ∈ sel.deltas, d.amount.OnGrid places := by
  obtain ⟨hpos, t, available, ordered, -, hls, havailable, hle, hordered, hdraw⟩ :=
    select_eq_ok h
  obtain ⟨c, hc, hq⟩ := exists_availableAmount hp hls.valid hgrid hlt
  rw [havailable] at hc
  cases hc
  have hperm := SelectionOrder.perm_arrange hordered
  have hsum : (ordered.map fun l => l.rawAmount.quanta).sum =
      (ls.map fun l => l.rawAmount.quanta).sum := (hperm.map _).sum_eq
  have hall : ∀ l ∈ ordered, .zero < l.rawAmount ∧ l.rawAmount.OnGrid places := fun l hl =>
    ⟨(hls.perm hperm.symm).amount_pos l hl, hgrid l (hperm.mem_iff.mp hl)⟩
  rw [Decimal.le_def] at hle
  have htaken := amount_draw hp hpos hrgrid (by omega) hall (by omega) hdraw
  have hds := onGrid_select hgrid hrgrid h
  -- every removal takes some of its lot, so the sums stay between the request and zero
  have hneg : ∀ d ∈ sel.deltas, d.amount.quanta ≤ 0 := fun d hd =>
    Int.le_of_lt (amount_neg_of_select h hd)
  have htotal := DeltaTotals.amount_addAll hp (fun d hd => ⟨hds d hd, hneg d hd⟩) (by omega)
    (totals_of_draw hdraw)
  exact ⟨htaken, by omega, hds⟩

/-- **Where the lots suffice**, there is a selection, or a sum, a product or a ratio is out
of range. -/
theorem failsByRange_select (hp : places ≤ 28) (hpos : .zero < requested)
    (ht : s.table.get id = .ok t) (hls : Snapshot now ls)
    (hgrid : ∀ l ∈ ls, l.rawAmount.OnGrid places)
    (hlt : (ls.map fun l => l.rawAmount.quanta).sum < Decimal.gridLimit places)
    (hle : requested.quanta ≤ (ls.map fun l => l.rawAmount.quanta).sum) :
    (s.select order id requested ls now).FailsByRange := by
  obtain ⟨available, havailable, hq⟩ := exists_availableAmount hp hls.valid hgrid hlt
  have hsuffices : ¬ available < requested := by
    rw [Decimal.lt_def]
    omega
  rw [select_of_snapshot hpos ht hls havailable, if_neg hsuffices]
  refine Outcome.FailsOnly.bind (SelectionOrder.failsByRange_arrange order ls) fun ordered _ => ?_
  exact Outcome.FailsOnly.bind failsByRange_draw fun _ _ => Outcome.failsOnly_ok _

/-- **Where the lots fall short**, the request is refused with the exact balance. -/
theorem select_of_short (hp : places ≤ 28) (hpos : .zero < requested)
    (ht : s.table.get id = .ok t) (hls : Snapshot now ls)
    (hgrid : ∀ l ∈ ls, l.rawAmount.OnGrid places)
    (hlt : (ls.map fun l => l.rawAmount.quanta).sum < Decimal.gridLimit places)
    (hshort : (ls.map fun l => l.rawAmount.quanta).sum < requested.quanta) :
    ∃ available, available.quanta = (ls.map fun l => l.rawAmount.quanta).sum ∧
      s.select order id requested ls now =
        Outcome.refuse (.insufficientBalance requested available) := by
  obtain ⟨available, havailable, hq⟩ := exists_availableAmount hp hls.valid hgrid hlt
  have hless : available < requested := by
    rw [Decimal.lt_def]
    omega
  exact ⟨available, hq, by rw [select_of_snapshot hpos ht hls havailable, if_pos hless]⟩

end Selector

namespace Ledger

variable {s : Selector} {now : Epoch} {order : SelectionOrder} {id : TokenId}
  {requested : Decimal} {places : Nat} {g after : Ledger} {sel : Selection}

/-- **The removals of a selection** take from the lots that the ledger has at their epochs. -/
theorem WellFormed.takes_of_select (hg : g.WellFormed)
    (hsel : s.select order id requested g.lots now = .ok sel) :
    ∃ t, s.table.get id = .ok t ∧
      ∀ d ∈ sel.deltas, ∃ l, g.get? d.epoch = some l ∧ l.Valid ∧ s.Takes t now l d := by
  obtain ⟨-, t, ht, htakes⟩ := Selector.exists_takes hsel
  refine ⟨t, ht, fun d hd => ?_⟩
  obtain ⟨l, hl, hvalid, htake⟩ := htakes d hd
  exact ⟨l, htake.epoch_eq ▸ hg.sorted.get?_of_mem hl, hvalid, htake⟩

/-- **A removal of a selection is within its lot.** -/
theorem WellFormed.within_of_select (hg : g.WellFormed)
    (hsel : s.select order id requested g.lots now = .ok sel) {d : LotDelta}
    (hd : d ∈ sel.deltas) {l : Lot} (hl : g.get? d.epoch = some l) : d.Within l := by
  obtain ⟨t, -, htakes⟩ := hg.takes_of_select hsel
  obtain ⟨x, hx, hvalid, htake⟩ := htakes d hd
  rw [hl] at hx
  cases hx
  exact htake.within hvalid

/-- **The removals of a selection are removals** from lots of the ledger and within these, if
nothing accrues below zero. -/
theorem WellFormed.removals_of_select (hg : g.WellFormed) (hrate : .zero ≤ s.accrualRate)
    (hsel : s.select order id requested g.lots now = .ok sel) :
    ∀ d ∈ sel.deltas, d.isRemoval = true ∧
      ∃ l, g.get? d.epoch = some l ∧ l.Valid ∧ d.Within l := by
  obtain ⟨t, ht, htakes⟩ := hg.takes_of_select hsel
  intro d hd
  obtain ⟨l, hl, hvalid, htake⟩ := htakes d hd
  exact ⟨htake.isRemoval hvalid (TokenTable.multipliers_nonneg ht).1 hrate, l, hl, hvalid,
    htake.within hvalid⟩

/-- **A selection that is applied** to the ledger it was made from keeps it
well-formed: no rounded share is greater than what the lot has. -/
theorem WellFormed.applySelection (hg : g.WellFormed)
    (hsel : s.select order id requested g.lots now = .ok sel)
    (h : g.applyDeltas sel.deltas = .ok after) : after.WellFormed :=
  hg.applyDeltas (Selector.exists_takes hsel).1
    (fun _ hd _ hl => (hg.within_of_select hsel hd hl).baseValue) h

/-- **A selection that is applied** takes what was asked for. -/
theorem WellFormed.amount_applySelection (hg : g.WellFormed) (hp : places ≤ 28)
    (hgrid : g.OnGrid places) (hrgrid : requested.OnGrid places)
    (hlt : g.amount < Decimal.gridLimit places)
    (hsel : s.select order id requested g.lots now = .ok sel)
    (h : g.applyDeltas sel.deltas = .ok after) :
    after.amount = g.amount - requested.quanta ∧ after.OnGrid places := by
  obtain ⟨hsum, -, hds⟩ := Selector.amount_select hp hgrid hrgrid hlt hsel
  have hafter := hg.toGuarded.amount_applyDeltas hp hgrid hds hlt h
  rwa [hsum, ← Int.sub_eq_add_neg] at hafter

end Ledger

namespace Selector

/-! ## Exact selections -/

/-- **Selection is exact on a grid.** A positive request of a known token, from a snapshot
of lots whose amounts are on a grid with the request and together have room there, is refused
for the balance exactly where it is greater than the sum of the amounts; where it is not,
there is a selection, or a share, a sum or a ratio is out of range. The lots make a ledger,
and whenever a selection is made, its removals add up to the request, its total says so,
and what the removals leave in the ledger, if they are applied, is the difference. -/
theorem select_exact {s : Selector} {t : Token} {order : SelectionOrder} {id : TokenId}
    {requested : Decimal} {ls : List Lot} {now : Epoch} {places : Nat} (hp : places ≤ 28)
    (ht : s.table.get id = .ok t) (hls : Snapshot now ls) (hpos : .zero < requested)
    (hgrid : ∀ l ∈ ls, l.rawAmount.OnGrid places) (hrgrid : requested.OnGrid places)
    (hlt : (ls.map fun l => l.rawAmount.quanta).sum < Decimal.gridLimit places) :
    ((∃ asked available, s.select order id requested ls now =
        Outcome.refuse (.insufficientBalance asked available)) ↔
      (ls.map fun l => l.rawAmount.quanta).sum < requested.quanta) ∧
    (requested.quanta ≤ (ls.map fun l => l.rawAmount.quanta).sum →
      (s.select order id requested ls now).FailsByRange) ∧
    ∃ g, Ledger.ofLots id ls = .ok g ∧ g.lots.Perm ls ∧
      ∀ sel, s.select order id requested ls now = .ok sel →
        (sel.deltas.map fun d => d.amount.quanta).sum = -requested.quanta ∧
        sel.total.amount.quanta = -requested.quanta ∧
        ∀ after, g.applyDeltas sel.deltas = .ok after →
          after.amount = (ls.map fun l => l.rawAmount.quanta).sum - requested.quanta ∧
          ∃ c, after.totalAmount = .ok c ∧ c.quanta = after.amount := by
  have hsolvent : requested.quanta ≤ (ls.map fun l => l.rawAmount.quanta).sum →
      (s.select order id requested ls now).FailsByRange :=
    failsByRange_select hp hpos ht hls hgrid hlt
  refine ⟨⟨fun ⟨asked, available, hrefused⟩ => ?_, fun hshort => ?_⟩, hsolvent, ?_⟩
  · -- a refusal for the balance is not one by range
    by_contra hle
    exact hsolvent (Int.not_lt.mp hle) _ hrefused
  · obtain ⟨available, -, hrefused⟩ := select_of_short hp hpos ht hls hgrid hlt hshort
    exact ⟨requested, available, hrefused⟩
  · obtain ⟨g, hg, hperm⟩ := Ledger.exists_ofLots id hls.valid hls.nodup
    have hguarded := (Ledger.wellFormed_of_ofLots hg).toGuarded
    have hamount : g.amount = (ls.map fun l => l.rawAmount.quanta).sum := (hperm.map _).sum_eq
    have hggrid : g.OnGrid places := fun l hl => hgrid l (hperm.mem_iff.mp hl)
    refine ⟨g, hg, hperm, fun sel hsel => ?_⟩
    obtain ⟨hsum, htotal, hds⟩ := amount_select hp hgrid hrgrid hlt hsel
    refine ⟨hsum, htotal, fun after hafter => ?_⟩
    obtain ⟨hleft, hleftgrid⟩ := hguarded.amount_applyDeltas hp hggrid hds (by omega) hafter
    have hrpos : 0 < requested.quanta := hpos
    have hafterguarded := hguarded.changed (c := .apply sel.deltas) hafter
    exact ⟨by omega, hafterguarded.exists_totalAmount hp hleftgrid (by omega)⟩

/-- Lots of 2.25 and 1.5 tokens, written in different scales. All of 3.750 tokens are
selected, highest ratio first, and leave nothing; for 3.76 tokens they fall short. -/
theorem select_exact_boundary :
    let large : Decimal := ⟨false, 225, 2, by decide, by decide⟩
    let small : Decimal := ⟨false, 15, 1, by decide, by decide⟩
    let ls : List Lot := [⟨⟨2⟩, large, .one, .one, .one⟩, ⟨⟨1⟩, small, .one, .one, .one⟩]
    let all : Decimal := ⟨false, 3750, 3, by decide, by decide⟩
    let more : Decimal := ⟨false, 376, 2, by decide, by decide⟩
    let selected : Decimal → Outcome Selection := fun requested =>
      (Selector.mk .standard standardAccrualRate).select .highestRatioFirst TokenTable.beanId
        requested ls ⟨3⟩
    (∃ asked available, selected more =
        Outcome.refuse (.insufficientBalance asked available)) ∧
      ∃ g sel after, Ledger.ofLots TokenTable.beanId ls = .ok g ∧ selected all = .ok sel ∧
        sel.total.amount.quanta = -all.quanta ∧ g.applyDeltas sel.deltas = .ok after ∧
        after.amount = 0 := by
  intro large small ls all more selected
  obtain ⟨t, ht⟩ : ∃ t, TokenTable.standard.get TokenTable.beanId = .ok t :=
    Outcome.exists_ok_of_answer? (by decide +kernel)
  have hls : Snapshot ⟨3⟩ ls := ⟨by decide +kernel, by decide +kernel, by decide +kernel⟩
  have hgrid : ∀ l ∈ ls, l.rawAmount.OnGrid 2 := by decide +kernel
  have hlt : (ls.map fun l => l.rawAmount.quanta).sum < Decimal.gridLimit 2 := by
    decide +kernel
  have hexact := fun (r : Decimal) (hr : .zero < r) (hrgrid : r.OnGrid 2) =>
    @select_exact ⟨.standard, standardAccrualRate⟩ t .highestRatioFirst TokenTable.beanId r ls
      ⟨3⟩ 2 (by decide) ht hls hr hgrid hrgrid hlt
  obtain ⟨hmore, -⟩ := hexact more (by decide +kernel) (by decide +kernel)
  -- the ledger, the selection and what it leaves are found by one evaluation
  obtain ⟨after, hrun⟩ : ∃ after, (Ledger.ofLots TokenTable.beanId ls >>= fun g =>
      selected all >>= fun sel => g.applyDeltas sel.deltas) = .ok after :=
    Outcome.exists_ok_of_answer? (by decide +kernel)
  obtain ⟨g, hg, hrun⟩ := Outcome.bind_eq_ok.mp hrun
  obtain ⟨sel, hsel, hafter⟩ := Outcome.bind_eq_ok.mp hrun
  obtain ⟨-, -, x, hx, -, hall⟩ := hexact all (by decide +kernel) (by decide +kernel)
  rw [hg] at hx
  cases hx
  obtain ⟨-, htotal, hleft⟩ := hall sel hsel
  refine ⟨hmore.mpr (by decide +kernel), g, sel, after, hg, hsel, htotal, hafter, ?_⟩
  rw [(hleft after hafter).1]
  decide +kernel

end Selector

end StakeAccounting

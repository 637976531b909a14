import Mathlib.Algebra.BigOperators.Group.Finset.Piecewise
import Mathlib.Algebra.Order.BigOperators.Group.Finset
import StakeAccounting.Proofs.Ledger.Epochs
import StakeAccounting.Proofs.Selection.Shape

/-!
# Withdrawals in any portions

A withdrawal takes the newest lots and cuts the last of them off somewhere. How much is taken at
a time decides where the cuts are, which lots are split, and how often – but not what is left in
the end. The reason is that what is left has a shape that does not mention the withdrawals: it
is a **cut** of the ledger (`Ledger.Cut`), with no more at any epoch than there was, and where
something is left, everything older is. A withdrawal leaves a cut
(`WellFormed.cut_applySelection`), and a cut of a cut is a cut (`Cut.trans`), so any number of
them does.

Of two cuts of one ledger, one is below the other at every epoch (`Cut.le_or_le`). So two of the
same amount are the same, epoch by epoch (`Cut.amountAt_eq`), and all that is to know of a
list of withdrawals is how much they take together (`withdrawAll_path_independent`).
-/

namespace StakeAccounting

namespace Ledger

variable {g x y : Ledger} {e : Epoch} {ls : List Lot}

/-! ## The amount by epochs -/

/-- Lots have at an epoch that none of them is of nothing. -/
theorem addedAt_eq_zero (h : ∀ l ∈ ls, l.epoch ≠ e) : addedAt ls e = 0 := by
  have hnone : (ls.filter fun l => l.epoch = e) = [] :=
    List.filter_eq_nil_iff.mpr fun l hl => by simpa using h l hl
  rw [addedAt, hnone]
  rfl

/-- **In order**, what the lots have at an epoch is what its lot has. -/
theorem Sorted.addedAt_lots (hg : g.Sorted) (e : Epoch) : addedAt g.lots e = g.amountAt e := by
  obtain ⟨token, lots⟩ := g
  unfold Sorted at hg
  unfold amountAt get?
  dsimp only at *
  induction lots with
  | nil => rfl
  | cons l ls ih =>
    obtain ⟨hl, hls⟩ := List.pairwise_cons.mp hg
    rw [addedAt_cons]
    by_cases he : l.epoch = e
    · rw [if_pos he, List.find?_cons_of_pos (by simpa using he),
        addedAt_eq_zero fun x hx => he ▸ (Epoch.ne_of_lt (hl x hx)).symm, Int.add_zero]
      rfl
    · rw [if_neg he, List.find?_cons_of_neg (by simpa using he), Int.zero_add, ih hls]

/-- What lots have at all is what they have at their epochs. -/
theorem sum_addedAt {S : Finset Epoch} (h : ∀ l ∈ ls, l.epoch ∈ S) :
    ∑ e ∈ S, addedAt ls e = (ls.map fun l => l.rawAmount.quanta).sum := by
  induction ls with
  | nil => exact Finset.sum_eq_zero fun _ _ => rfl
  | cons l ls ih =>
    simp only [addedAt_cons]
    rw [Finset.sum_add_distrib, Finset.sum_ite_eq, if_pos (h l List.mem_cons_self),
      ih fun x hx => h x (List.mem_cons_of_mem l hx), List.map_cons, List.sum_cons]

/-- **A ledger that has no more than another at any epoch**, and as much at all, has as much at
every epoch. -/
theorem amountAt_eq_of_le (hx : x.Sorted) (hy : y.Sorted)
    (hle : ∀ e, x.amountAt e ≤ y.amountAt e) (h : x.amount = y.amount) (e : Epoch) :
    x.amountAt e = y.amountAt e := by
  let S : Finset Epoch := insert e ((x.lots ++ y.lots).map (·.epoch)).toFinset
  have hmem : ∀ l ∈ x.lots ++ y.lots, l.epoch ∈ S := fun l hl =>
    Finset.mem_insert_of_mem (List.mem_toFinset.mpr (List.mem_map_of_mem hl))
  have hxsum : ∑ k ∈ S, addedAt x.lots k = x.amount :=
    sum_addedAt fun l hl => hmem l (List.mem_append_left _ hl)
  have hysum : ∑ k ∈ S, addedAt y.lots k = y.amount :=
    sum_addedAt fun l hl => hmem l (List.mem_append_right _ hl)
  simp only [hx.addedAt_lots, hy.addedAt_lots] at hxsum hysum
  have hsum : ∑ k ∈ S, x.amountAt k = ∑ k ∈ S, y.amountAt k := by rw [hxsum, hysum, h]
  exact (Finset.sum_eq_sum_iff_of_le fun k _ => hle k).mp hsum e (Finset.mem_insert_self e _)

/-! ## Cuts -/

/-- **A cut of a ledger**: what is left when the newest lots are taken off, down to part of
one. -/
structure Cut (g x : Ledger) : Prop where
  /-- No more is left at any epoch than there was. -/
  le : ∀ e, x.amountAt e ≤ g.amountAt e
  /-- Where something is left, everything older is. -/
  older : ∀ k e, k < e → 0 < x.amountAt e → x.amountAt k = g.amountAt k

/-- Where nothing is taken off, that is a cut. -/
theorem Cut.refl (g : Ledger) : g.Cut g := ⟨fun _ => Int.le_refl _, fun _ _ _ _ => rfl⟩

/-- **A cut of a cut** is a cut. -/
theorem Cut.trans (hx : g.Cut x) (hy : x.Cut y) : g.Cut y := by
  refine ⟨fun e => Int.le_trans (hy.le e) (hx.le e), fun k e hk he => ?_⟩
  exact (hy.older k e hk he).trans (hx.older k e hk (Int.lt_of_lt_of_le he (hy.le e)))

/-- **Of two cuts, one is below the other.** If each had more than the other somewhere, the one
that has more at the newer of these epochs would have all of the older one. -/
theorem Cut.le_or_le (hx : g.Cut x) (hy : g.Cut y) (hxg : x.Guarded) (hyg : y.Guarded) :
    (∀ e, x.amountAt e ≤ y.amountAt e) ∨ ∀ e, y.amountAt e ≤ x.amountAt e := by
  have hcross : ∀ {x y : Ledger}, g.Cut x → g.Cut y → x.Guarded → ∀ {k e : Epoch}, k < e →
      x.amountAt e < y.amountAt e → x.amountAt k ≤ y.amountAt k := by
    intro x y hx hy hxg k e hk he
    rw [hy.older k e hk (Int.lt_of_le_of_lt (hxg.amountAt_nonneg e) he)]
    exact hx.le k
  by_contra hnot
  push Not at hnot
  obtain ⟨⟨k, hk⟩, e, he⟩ := hnot
  by_cases hke : k < e
  · exact absurd (hcross hx hy hxg hke he) (Int.not_le.mpr hk)
  · have hne : k ≠ e := by
      rintro rfl
      exact Int.lt_irrefl _ (Int.lt_trans hk he)
    exact absurd (hcross hy hx hyg (Epoch.lt_of_not_lt_of_ne hke hne) hk) (Int.not_le.mpr he)

/-- **Two cuts of the same amount** have the same at every epoch. -/
theorem Cut.amountAt_eq (hx : g.Cut x) (hy : g.Cut y) (hxg : x.Guarded) (hyg : y.Guarded)
    (h : x.amount = y.amount) (e : Epoch) : x.amountAt e = y.amountAt e := by
  cases hx.le_or_le hy hxg hyg with
  | inl hle => exact amountAt_eq_of_le hxg.sorted hyg.sorted hle h e
  | inr hle => exact (amountAt_eq_of_le hyg.sorted hxg.sorted hle h.symm e).symm

end Ledger

/-! ## What a withdrawal leaves -/

namespace Selector

variable {s : Selector} {t : Token} {now : Epoch}

/-- **A removal that another one follows** empties its lot. -/
theorem pairwise_empties {ls : List Lot} : ∀ {remaining : Decimal} {totals sums : DeltaTotals}
    {ds : List LotDelta}, s.draw t now remaining totals ls = .ok (sums, ds) →
      ds.Pairwise fun d _ => ∃ l ∈ ls, d.Empties l := by
  induction ls with
  | nil =>
    intro remaining totals sums ds h
    cases h
    exact List.Pairwise.nil
  | cons l ls ih =>
    intro remaining totals sums ds h
    obtain ⟨d, next, left, hd, -, hleft, hcases⟩ := draw_cons_eq_ok.mp h
    obtain ⟨-, -, rfl⟩ | ⟨hmore, others, hrest, rfl⟩ := hcases
    · exact List.pairwise_singleton _ _
    · rw [min_of_more hleft hmore] at hd
      refine List.pairwise_cons.mpr ⟨fun _ _ => ⟨l, List.mem_cons_self, empties_of_split hd⟩, ?_⟩
      exact (ih hrest).imp fun ⟨x, hx, hempties⟩ => ⟨x, List.mem_cons_of_mem l hx, hempties⟩

/-- **Newest first, a removal empties its lot** if an older lot is drawn on, too. -/
theorem empties_of_newer {id : TokenId} {requested : Decimal} {ls : List Lot} {sel : Selection}
    (h : s.select .newestFirst id requested ls now = .ok sel) {c d : LotDelta}
    (hc : c ∈ sel.deltas) (hd : d ∈ sel.deltas) (hlt : c.epoch < d.epoch) :
    ∃ l ∈ ls, d.Empties l := by
  obtain ⟨-, t, -, ordered, -, -, -, -, hordered, hdraw⟩ := select_eq_ok h
  have hperm := SelectionOrder.perm_arrange hordered
  have hdown := (newest_of_select h).1
  rw [Selection.epochs, List.pairwise_map] at hdown
  -- of the two removals, that of the newer lot comes first
  have hfirst : sel.deltas.Pairwise fun a b => a.epoch < b.epoch → ∃ l ∈ ordered, b.Empties l :=
    hdown.imp fun hba hab => absurd (Epoch.lt_trans hab hba) (Epoch.lt_irrefl _)
  have hsecond : sel.deltas.Pairwise fun a b => b.epoch < a.epoch → ∃ l ∈ ordered, a.Empties l := by
    refine (pairwise_empties hdraw).imp ?_
    exact fun ha _ => ha
  obtain ⟨l, hl, hempties⟩ := hfirst.forall_of_forall_of_flip
    (fun a _ haa => absurd haa (Epoch.lt_irrefl _)) hsecond hc hd hlt
  exact ⟨l, hperm.mem_iff.mp hl, hempties⟩

end Selector

namespace Ledger

variable {g x y after : Ledger} {places : Nat}

/-- **A withdrawal leaves a cut.** At an epoch where something is left, the lot was not emptied;
so no older lot was drawn on. -/
theorem WellFormed.cut_applySelection {s : Selector} {now : Epoch} {id : TokenId}
    {requested : Decimal} {sel : Selection} (hg : g.WellFormed) (hp : places ≤ 28)
    (hgrid : g.OnGrid places) (hrgrid : requested.OnGrid places)
    (hlt : g.amount < Decimal.gridLimit places)
    (hsel : s.select .newestFirst id requested g.lots now = .ok sel)
    (h : g.applyDeltas sel.deltas = .ok after) : g.Cut after := by
  constructor
  · intro e
    have hroom : ∀ e, g.amountAt e < Decimal.gridLimit places := fun e =>
      Int.lt_of_le_of_lt (hg.toGuarded.amountAt_le e) hlt
    have htaken := (hg.toGuarded.amountAt_applyDeltas hp hgrid
      (Selector.onGrid_select hgrid hrgrid hsel) hroom h).1 e
    have hdown := addedAt_added_nonpos
      (fun d hd => Int.le_of_lt (Selector.amount_neg_of_select hsel hd)) e
    omega
  · intro k e hk he
    suffices hkeep : k ∉ sel.epochs by
      rw [amountAt, get?_applyDeltas_of_not_mem hkeep h, amountAt]
    intro hdrawn
    obtain ⟨l, hl⟩ : ∃ l, after.get? e = some l := by
      cases hget : after.get? e with
      | some l => exact ⟨l, rfl⟩
      | none =>
        rw [amountAt, hget] at he
        exact absurd he (Int.lt_irrefl 0)
    by_cases he' : e ∈ sel.epochs
    · obtain ⟨c, hc, rfl⟩ := List.mem_map.mp hdrawn
      obtain ⟨d, hd, rfl⟩ := List.mem_map.mp he'
      obtain ⟨x, hx, hempties⟩ := Selector.empties_of_newer hsel hc hd hk
      have hget := hempties.epoch_eq ▸ hg.sorted.get?_of_mem hx
      rw [get?_applyDeltas_of_empties hempties (Selector.exists_takes hsel).1 hd hget h] at hl
      cases hl
    · rw [get?_applyDeltas_of_not_mem he' h] at hl
      have hnewer := (Selector.newest_of_select hsel).2 l (mem_of_get? hl)
        ((epoch_of_get? hl).symm ▸ he') k hdrawn
      rw [epoch_of_get? hl] at hnewer
      exact Epoch.lt_irrefl _ (Epoch.lt_trans hk hnewer)

/-! ## Lists of withdrawals -/

/-- **A withdrawal** that is asked for. -/
structure Withdrawal where
  /-- The selector the lots are selected with. -/
  selector : Selector
  /-- The token the selector is asked for. -/
  token : TokenId
  /-- The amount. -/
  amount : Decimal
  /-- The epoch it is asked for in. -/
  now : Epoch

/-- **Withdraw from a ledger**: lots are selected, and the removals are taken. -/
def withdraw (g : Ledger) (w : Withdrawal) : Outcome Ledger := do
  let sel ← w.selector.selectFor .withdrawal w.token w.amount g.lots w.now
  g.applyDeltas sel.deltas

/-- Withdraw one after the other. -/
def withdrawAll (g : Ledger) (ws : List Withdrawal) : Outcome Ledger := ws.foldlM withdraw g

/-- **What a list of withdrawals leaves** is a cut, and as much as they do not take. -/
theorem WellFormed.cut_withdrawAll (hp : places ≤ 28) {ws : List Withdrawal} :
    ∀ {g : Ledger}, g.WellFormed → g.OnGrid places → g.amount < Decimal.gridLimit places →
      (∀ w ∈ ws, w.amount.OnGrid places) → g.withdrawAll ws = .ok x →
        x.WellFormed ∧ g.Cut x ∧
          x.amount = g.amount - (ws.map fun w => w.amount.quanta).sum := by
  induction ws with
  | nil =>
    intro g hg _ _ _ h
    cases h
    exact ⟨hg, Cut.refl _, (Int.sub_zero _).symm⟩
  | cons w ws ih =>
    intro g hg hgrid hlt hws h
    obtain ⟨next, hnext, h⟩ := Outcome.bind_eq_ok.mp h
    obtain ⟨sel, hsel, hnext⟩ := Outcome.bind_eq_ok.mp hnext
    have hw := hws w List.mem_cons_self
    have hpos := (Selector.select_eq_ok hsel).1
    rw [Decimal.lt_def, Decimal.quanta_zero] at hpos
    obtain ⟨hamount, hnextgrid⟩ := hg.amount_applySelection hp hgrid hw hlt hsel hnext
    obtain ⟨hx, hcut, hleft⟩ := ih (hg.applySelection hsel hnext) hnextgrid (by omega)
      (fun v hv => hws v (List.mem_cons_of_mem w hv)) h
    refine ⟨hx, (hg.cut_applySelection hp hgrid hw hlt hsel hnext).trans hcut, ?_⟩
    rw [hleft, hamount, List.map_cons, List.sum_cons]
    omega

/-- **Withdrawals in any portions.** From a well-formed ledger whose amounts are on a grid and
together have room there, two lists of withdrawals of amounts on the grid that add up to the
same, if all of them succeed, leave lots of the same epochs with the same amounts – however many
withdrawals there are, in whatever epochs they are made, and whatever is split on the way. -/
theorem withdrawAll_path_independent (hp : places ≤ 28) (hg : g.WellFormed)
    (hgrid : g.OnGrid places) (hlt : g.amount < Decimal.gridLimit places)
    {vs ws : List Withdrawal} (hvs : ∀ v ∈ vs, v.amount.OnGrid places)
    (hws : ∀ w ∈ ws, w.amount.OnGrid places)
    (hsum : (vs.map fun v => v.amount.quanta).sum = (ws.map fun w => w.amount.quanta).sum)
    (hx : g.withdrawAll vs = .ok x) (hy : g.withdrawAll ws = .ok y) (e : Epoch) :
    (x.get? e).map (·.rawAmount.quanta) = (y.get? e).map (·.rawAmount.quanta) := by
  obtain ⟨hxf, hxcut, hxleft⟩ := WellFormed.cut_withdrawAll hp hg hgrid hlt hvs hx
  obtain ⟨hyf, hycut, hyleft⟩ := WellFormed.cut_withdrawAll hp hg hgrid hlt hws hy
  refine hxf.toGuarded.map_get?_congr hyf.toGuarded ?_
  exact hxcut.amountAt_eq hycut hxf.toGuarded hyf.toGuarded (by rw [hxleft, hyleft, hsum]) e

/-- Three of nine tokens are withdrawn at once, or as a half, two, and a half in later epochs.
The first way splits the lot of epoch 2 once; the second splits the newest lot, then empties it
and splits the other, and splits that again. What is left is the same. -/
theorem withdrawAll_path_independent_three :
    let s : Selector := ⟨.standard, Selector.standardAccrualRate⟩
    let half : Decimal := ⟨false, 5, 1, by decide, by decide⟩
    let ask : Decimal → Epoch → Withdrawal := fun amount now =>
      ⟨s, TokenTable.beanId, amount, now⟩
    let atOnce : List Withdrawal := [ask (.ofUInt32 3) ⟨3⟩]
    let inTurn : List Withdrawal :=
      [ask half ⟨3⟩, ask (.ofUInt32 2) ⟨7⟩, ask half ⟨9⟩]
    ∃ g x y, ofLots TokenTable.beanId [⟨⟨1⟩, .ofUInt32 5, .one, .one, .one⟩,
        ⟨⟨2⟩, .ofUInt32 2, .one, .one, .one⟩, ⟨⟨3⟩, .ofUInt32 2, .one, .one, .one⟩] = .ok g ∧
      g.withdrawAll atOnce = .ok x ∧ g.withdrawAll inTurn = .ok y ∧
      (x.get? ⟨2⟩).map (·.rawAmount.quanta) = some Decimal.one.quanta ∧
      ∀ e, (x.get? e).map (·.rawAmount.quanta) = (y.get? e).map (·.rawAmount.quanta) := by
  intro s half ask atOnce inTurn
  let g : Ledger := ⟨TokenTable.beanId, [⟨⟨1⟩, .ofUInt32 5, .one, .one, .one⟩,
    ⟨⟨2⟩, .ofUInt32 2, .one, .one, .one⟩, ⟨⟨3⟩, .ofUInt32 2, .one, .one, .one⟩]⟩
  have hg : ofLots TokenTable.beanId g.lots = .ok g := by decide +kernel
  obtain ⟨x, hx⟩ : ∃ x, g.withdrawAll atOnce = .ok x :=
    Outcome.exists_ok_of_answer? (by decide +kernel)
  obtain ⟨y, hy⟩ : ∃ y, g.withdrawAll inTurn = .ok y :=
    Outcome.exists_ok_of_answer? (by decide +kernel)
  have hgrid : g.OnGrid 1 := by
    unfold OnGrid
    decide +kernel
  have hone : (fun z : Ledger => (z.get? ⟨2⟩).map (·.rawAmount.quanta)) <$>
      g.withdrawAll atOnce = .ok (some Decimal.one.quanta) := by decide +kernel
  rw [hx] at hone
  exact ⟨g, x, y, hg, hx, hy, Except.ok.inj hone,
    withdrawAll_path_independent (by decide) (wellFormed_of_ofLots hg) hgrid
      (by decide +kernel) (by decide +kernel) (by decide +kernel) (by decide +kernel) hx hy⟩

end Ledger

end StakeAccounting

import StakeAccounting.Proofs.Selection.Arrangement

/-!
# Snapshots in another order

The lots of a snapshot come as a list, and nothing says in which order. Three things on the
way to a selection could tell: the check for lots of one epoch, the sum the request is
checked against, which is rounded lot by lot, and the sort, whose key is a rounded ratio.

The check asks the same of a list and its permutations (`Selector.Snapshot.perm`), and the sum
is exact where the amounts have room on a grid. The sort is where a tie would be left open,
if there was one. There is none: lots of different epochs precede one another strictly
(`SelectionOrder.Precedes`), so a snapshot has one arrangement, whatever order it is given in
(`SelectionOrder.arrange_perm`). Behind the checks only the arrangement is drawn from, so the
selection is the same, removal by removal (`Selector.select_perm`).
-/

namespace StakeAccounting

namespace SelectionOrder

/-- A lot that precedes another is not preceded by it. -/
theorem Precedes.asymm {order : SelectionOrder} {a b : Lot} (hab : order.Precedes a b) :
    ¬ order.Precedes b a := by
  cases order with
  | newestFirst =>
    intro hba
    simp only [Precedes, Epoch.lt_def] at hab hba
    omega
  | highestRatioFirst =>
    rintro ⟨rb', ra', hrb', hra', hba⟩
    obtain ⟨ra, rb, hra, hrb, hab⟩ := hab
    rw [hra] at hra'
    rw [hrb] at hrb'
    cases hra'
    cases hrb'
    simp only [Decimal.lt_def, Decimal.same_def, Epoch.lt_def] at hab hba
    omega

/-- Lots whose ratios are in range are keyed by them. -/
theorem exists_keyed {ls : List Lot} (h : ∀ l ∈ ls, ∃ r, l.ratio = .ok r) :
    ∃ keyed, (ls.mapM fun l => l.ratio >>= fun r =>
      (pure (r, l) : Outcome (Decimal × Lot))) = .ok keyed := by
  induction ls with
  | nil => exact ⟨[], rfl⟩
  | cons l ls ih =>
    obtain ⟨r, hr⟩ := h l List.mem_cons_self
    obtain ⟨keyed, hkeyed⟩ := ih fun x hx => h x (List.mem_cons_of_mem l hx)
    refine ⟨(r, l) :: keyed, ?_⟩
    rw [List.mapM_cons, hr, hkeyed]
    rfl

/-- The ratios of lots that are arranged by them are in range. -/
theorem exists_ratio {ls ordered : List Lot}
    (h : SelectionOrder.highestRatioFirst.arrange ls = .ok ordered) :
    ∀ l ∈ ls, ∃ r, l.ratio = .ok r := by
  obtain ⟨keyed, hkeyed, -⟩ := Outcome.bind_eq_ok.mp h
  intro l hl
  rw [← perm_arrange_highestRatio hkeyed] at hl
  obtain ⟨p, hp, rfl⟩ := List.mem_map.mp hl
  exact ⟨p.1, ratio_of_keyed hkeyed p hp⟩

/-- Lots are arranged in any order they come in, or in none. -/
theorem exists_arrange_perm {order : SelectionOrder} {ls ms ordered : List Lot}
    (hperm : ls.Perm ms) (h : order.arrange ls = .ok ordered) :
    ∃ ordered', order.arrange ms = .ok ordered' := by
  cases order with
  | newestFirst => exact ⟨_, rfl⟩
  | highestRatioFirst =>
    have hratios := exists_ratio h
    obtain ⟨keyed, hkeyed⟩ := exists_keyed fun l hl => hratios l (hperm.mem_iff.mpr hl)
    exact ⟨_, Outcome.bind_eq_ok.mpr ⟨keyed, hkeyed, rfl⟩⟩

/-- **Lots of different epochs have one arrangement**, whatever order they come in: two lists of
the same lots, each in strict order, are equal. -/
theorem arrange_perm {order : SelectionOrder} {ls ms ordered : List Lot}
    (hnodup : (ls.map (·.epoch)).Nodup) (hperm : ls.Perm ms)
    (h : order.arrange ls = .ok ordered) : order.arrange ms = .ok ordered := by
  obtain ⟨ordered', h'⟩ := exists_arrange_perm hperm h
  have hnodup' : (ms.map (·.epoch)).Nodup := (hperm.map _).nodup_iff.mp hnodup
  have hlots : ordered.Perm ordered' :=
    (perm_arrange h).trans (hperm.trans (perm_arrange h').symm)
  have heq : ordered = ordered' :=
    hlots.eq_of_pairwise (fun a b _ _ hab hba => absurd hba hab.asymm)
      (pairwise_arrange hnodup h) (pairwise_arrange hnodup' h')
  rw [heq]
  exact h'

end SelectionOrder

namespace Selector

variable {s : Selector} {now : Epoch} {order : SelectionOrder} {id : TokenId}
  {requested : Decimal} {ls ms : List Lot} {sel : Selection} {places : Nat}

/-- What is available is the same amount in any order of the lots, though perhaps in another
scale. -/
theorem exists_availableAmount_perm (hp : places ≤ 28) (hperm : ls.Perm ms)
    (hvalid : ∀ l ∈ ls, l.Valid) (hgrid : ∀ l ∈ ls, l.rawAmount.OnGrid places)
    (hlt : (ls.map fun l => l.rawAmount.quanta).sum < Decimal.gridLimit places)
    {available : Decimal} (h : availableAmount ls = .ok available) :
    ∃ available', availableAmount ms = .ok available' ∧ available'.Same available := by
  have hsum : (ls.map fun l => l.rawAmount.quanta).sum =
      (ms.map fun l => l.rawAmount.quanta).sum := (hperm.map _).sum_eq
  obtain ⟨a, ha, hq⟩ := exists_availableAmount hp hvalid hgrid hlt
  rw [h] at ha
  cases ha
  obtain ⟨b, hb, hq'⟩ := exists_availableAmount hp
    (fun l hl => hvalid l (hperm.mem_iff.mpr hl)) (fun l hl => hgrid l (hperm.mem_iff.mpr hl))
    (hsum ▸ hlt)
  exact ⟨b, hb, by rw [Decimal.same_def, hq, hq', hsum]⟩

/-- **A selection is made from the lots in another order**, too. -/
theorem select_of_perm (hp : places ≤ 28) (hperm : ls.Perm ms)
    (hgrid : ∀ l ∈ ls, l.rawAmount.OnGrid places)
    (hlt : (ls.map fun l => l.rawAmount.quanta).sum < Decimal.gridLimit places)
    (h : s.select order id requested ls now = .ok sel) :
    s.select order id requested ms now = .ok sel := by
  obtain ⟨hpos, t, available, ordered, ht, hls, havailable, hle, hordered, hdraw⟩ :=
    select_eq_ok h
  obtain ⟨available', havailable', hsame⟩ :=
    exists_availableAmount_perm hp hperm hls.valid hgrid hlt havailable
  have hsuffices' : ¬ available' < requested := by
    rw [Decimal.lt_def, hsame]
    exact Decimal.not_lt.mpr hle
  -- past the checks both draw from the one arrangement
  rw [select_of_snapshot hpos ht hls havailable, if_neg (Decimal.not_lt.mpr hle), hordered] at h
  rw [select_of_snapshot hpos ht (hls.perm hperm) havailable', if_neg hsuffices',
    SelectionOrder.arrange_perm hls.nodup hperm hordered]
  exact h

/-- **The order of the snapshot does not matter.** From two permutations of one list of lots,
whose amounts have room on a grid, the same selection is made – with the same removals in the
same order, and the same totals – or none from either. -/
theorem select_perm (hp : places ≤ 28) (hperm : ls.Perm ms)
    (hgrid : ∀ l ∈ ls, l.rawAmount.OnGrid places)
    (hlt : (ls.map fun l => l.rawAmount.quanta).sum < Decimal.gridLimit places) :
    s.select order id requested ls now = .ok sel ↔
      s.select order id requested ms now = .ok sel := by
  have hsum : (ls.map fun l => l.rawAmount.quanta).sum =
      (ms.map fun l => l.rawAmount.quanta).sum := (hperm.map _).sum_eq
  exact ⟨select_of_perm hp hperm hgrid hlt, select_of_perm hp hperm.symm
    (fun l hl => hgrid l (hperm.mem_iff.mpr hl)) (hsum ▸ hlt)⟩

/-- Three lots, two of which have the same ratio, written in other scales. Whichever of the
three comes first in the snapshot, the newer of the two is drawn on first, then the older, and
then the lot with the lower ratio. -/
theorem select_perm_tie :
    let older : Lot := ⟨⟨1⟩, ⟨false, 20, 1, by decide, by decide⟩, .one, .one, .one⟩
    let newer : Lot := ⟨⟨3⟩, ⟨false, 100, 2, by decide, by decide⟩, .percent 50, .one, .one⟩
    let poorer : Lot := ⟨⟨2⟩, .one, .percent 25, .one, .one⟩
    let selected : List Lot → Outcome Selection := fun ls =>
      (Selector.mk .standard standardAccrualRate).select .highestRatioFirst TokenTable.beanId
        (.percent 350) ls ⟨4⟩
    ∃ sel, selected [poorer, older, newer] = .ok sel ∧ selected [older, newer, poorer] = .ok sel ∧
      sel.epochs = [⟨3⟩, ⟨1⟩, ⟨2⟩] := by
  intro older newer poorer selected
  have hperm : [poorer, older, newer].Perm [older, newer, poorer] := by decide +kernel
  have hgrid : ∀ l ∈ [poorer, older, newer], l.rawAmount.OnGrid 2 := by decide +kernel
  have hlt : ([poorer, older, newer].map fun l => l.rawAmount.quanta).sum <
      Decimal.gridLimit 2 := by decide +kernel
  obtain ⟨sel, hsel, hepochs⟩ := Outcome.map_eq_ok.mp
    (show Selection.epochs <$> selected [poorer, older, newer] = .ok [⟨3⟩, ⟨1⟩, ⟨2⟩] by
      decide +kernel)
  exact ⟨sel, hsel, (select_perm (by decide) hperm hgrid hlt).mp hsel, hepochs⟩

end Selector

end StakeAccounting

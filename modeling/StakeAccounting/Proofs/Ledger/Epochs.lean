import StakeAccounting.Proofs.Ledger.Amount

/-!
# The amount at each epoch

A deposit is merged into the lot of its epoch, or makes one. Either way, where amounts are on
a grid and the sums do not leave it, the amount at its epoch grows by what is deposited and
the amounts at other epochs stay (`Guarded.amountAt_append`). So a list of deposits adds to
each epoch what it has there (`Guarded.amountAt_appendAll`), in whatever order it is listed.
The bound is one for each epoch: the sum over the ledger may be out of range. Removals are the
same with less than nothing added (`Guarded.amountAt_applyDeltas`), so removals and their
credits, taken from one ledger and added to another, cancel (`addedAt_asCredit`).

Whether deposits are added at all depends on the ledger even less. A ledger refuses a lot for
nothing but its form, so unless a merge overflows the outcome is that of checking the lots one
by one (`void_appendAll`).
-/

namespace StakeAccounting

namespace Ledger

variable {g after : Ledger} {l : Lot} {ls : List Lot} {e : Epoch} {places : Nat}

/-- **The amount at an epoch**, in units of `10^-28`; zero without a lot. -/
def amountAt (g : Ledger) (e : Epoch) : Int :=
  ((g.get? e).map fun l => l.rawAmount.quanta).getD 0

/-- **What lots have at an epoch**, together. -/
def addedAt (ls : List Lot) (e : Epoch) : Int :=
  ((ls.filter fun l => l.epoch = e).map fun l => l.rawAmount.quanta).sum

theorem addedAt_cons (l : Lot) (ls : List Lot) (e : Epoch) :
    addedAt (l :: ls) e = (if l.epoch = e then l.rawAmount.quanta else 0) + addedAt ls e := by
  unfold addedAt
  rw [List.filter_cons]
  by_cases he : l.epoch = e
  · simp [he]
  · simp [he]

theorem addedAt_nonneg (h : ∀ l ∈ ls, l.Valid) (e : Epoch) : 0 ≤ addedAt ls e := by
  refine List.sum_nonneg fun q hq => ?_
  obtain ⟨l, hl, rfl⟩ := List.mem_map.mp hq
  exact Int.le_of_lt (l.valid_iff.mp (h l (List.mem_of_mem_filter hl))).1

theorem amountAt_put (g : Ledger) (l : Lot) (e : Epoch) :
    (g.put l).amountAt e = if l.epoch = e then l.rawAmount.quanta else g.amountAt e := by
  unfold amountAt
  split
  · rename_i he
    rw [← he, get?_put_self]
    rfl
  · rename_i he
    rw [get?_put_of_ne he]

theorem amountAt_erase (g : Ledger) (k e : Epoch) :
    (g.erase k).amountAt e = if k = e then 0 else g.amountAt e := by
  unfold amountAt
  split
  · rename_i he
    rw [he, get?_erase_self]
    rfl
  · rename_i he
    rw [get?_erase_of_ne he]

theorem amountAt_of_get? (h : g.get? e = some l) : g.amountAt e = l.rawAmount.quanta := by
  rw [amountAt, h]
  rfl

/-- No epoch has less than nothing. -/
theorem Guarded.amountAt_nonneg (hg : g.Guarded) (e : Epoch) : 0 ≤ g.amountAt e := by
  cases hx : g.get? e with
  | none =>
    rw [amountAt, hx]
    exact Int.le_refl 0
  | some x =>
    rw [amountAt_of_get? hx]
    exact Int.le_of_lt (hg.amount_pos (mem_of_get? hx))

/-- Where the lots have positive amounts, the amount at an epoch says whether there is a lot. -/
theorem Guarded.map_get?_congr {g' : Ledger} (hg : g.Guarded) (hg' : g'.Guarded)
    (h : g.amountAt e = g'.amountAt e) :
    (g.get? e).map (·.rawAmount.quanta) = (g'.get? e).map (·.rawAmount.quanta) := by
  unfold amountAt at h
  cases hx : g.get? e with
  | none =>
    cases hy : g'.get? e with
    | none => rfl
    | some y =>
      rw [hx, hy] at h
      exact absurd h (Int.ne_of_lt (hg'.amount_pos (mem_of_get? hy)))
  | some x =>
    cases hy : g'.get? e with
    | none =>
      rw [hx, hy] at h
      exact absurd h.symm (Int.ne_of_lt (hg.amount_pos (mem_of_get? hx)))
    | some y =>
      rw [hx, hy] at h
      exact congrArg some h

/-- No epoch has more than the ledger. -/
theorem Guarded.amountAt_le (hg : g.Guarded) (e : Epoch) : g.amountAt e ≤ g.amount := by
  unfold amountAt
  cases hx : g.get? e with
  | none => exact hg.amount_nonneg
  | some x => exact hg.le_amount (mem_of_get? hx)

/-- Lots have no more at an epoch than at all. -/
theorem addedAt_le (h : ∀ l ∈ ls, l.Valid) (e : Epoch) :
    addedAt ls e ≤ (ls.map fun l => l.rawAmount.quanta).sum := by
  refine List.Sublist.sum_le_sum (List.filter_sublist.map _) fun q hq => ?_
  obtain ⟨l, hl, rfl⟩ := List.mem_map.mp hq
  exact Int.le_of_lt (l.valid_iff.mp (h l hl)).1

/-- **A deposit adds its amount at its epoch** and nothing elsewhere. -/
theorem Guarded.amountAt_append (hg : g.Guarded) (hp : places ≤ 28) (hgrid : g.OnGrid places)
    (hl : l.rawAmount.OnGrid places)
    (hlt : g.amountAt l.epoch + l.rawAmount.quanta < Decimal.gridLimit places)
    (h : g.append l = .ok after) :
    (∀ e, after.amountAt e = g.amountAt e + if l.epoch = e then l.rawAmount.quanta else 0) ∧
      after.OnGrid places := by
  obtain ⟨hvalid, ⟨hnone, rfl⟩ | ⟨x, m, hx, hm, rfl⟩⟩ := append_cases h
  · refine ⟨fun e => ?_, hgrid.put hl⟩
    rw [amountAt_put]
    split
    · rename_i he
      rw [← he, amountAt, hnone]
      exact (Int.zero_add _).symm
    · exact (Int.add_zero _).symm
  · have hxg := mem_of_get? hx
    have hat := amountAt_of_get? hx
    have hxpos := hg.amount_pos hxg
    have hlpos := (l.valid_iff.mp hvalid).1
    obtain ⟨hepoch, hraw, -⟩ := Lot.merge_eq_ok hm
    obtain ⟨c, hc, hq, hcgrid⟩ := Decimal.exists_add?_of_onGrid hp (hgrid x hxg) hl
      (by omega) (by omega)
    rw [Decimal.plus_eq_ok, hc] at hraw
    cases hraw
    refine ⟨fun e => ?_, hgrid.put hcgrid⟩
    rw [amountAt_put, hepoch, epoch_of_get? hx]
    split
    · rename_i he
      rw [← he, hat, hq]
    · exact (Int.add_zero _).symm

/-- **Deposits add their amounts at their epochs.** -/
theorem Guarded.amountAt_appendAll (hp : places ≤ 28) : ∀ {g after : Ledger}, g.Guarded →
    g.OnGrid places → (∀ l ∈ ls, l.rawAmount.OnGrid places) →
    (∀ e, g.amountAt e + addedAt ls e < Decimal.gridLimit places) →
    g.appendAll ls = .ok after →
      (∀ e, after.amountAt e = g.amountAt e + addedAt ls e) ∧ after.OnGrid places := by
  induction ls with
  | nil =>
    intro g after _ hgrid _ _ h
    cases h
    exact ⟨fun e => (Int.add_zero _).symm, hgrid⟩
  | cons l ls ih =>
    intro g after hg hgrid hls hlt h
    have hvalid := valid_of_appendAll h
    obtain ⟨next, hnext, h⟩ := Outcome.bind_eq_ok.mp h
    have hroom : g.amountAt l.epoch + l.rawAmount.quanta < Decimal.gridLimit places := by
      have hsum := hlt l.epoch
      have hrest := addedAt_nonneg (fun x hx => hvalid x (List.mem_cons_of_mem l hx)) l.epoch
      rw [addedAt_cons, if_pos rfl] at hsum
      omega
    obtain ⟨hadded, hnextgrid⟩ :=
      hg.amountAt_append hp hgrid (hls l List.mem_cons_self) hroom hnext
    obtain ⟨hafter, hgrid'⟩ := ih (hg.append hnext) hnextgrid
      (fun x hx => hls x (List.mem_cons_of_mem l hx)) (fun e => by
        have := hlt e
        rw [addedAt_cons] at this
        rw [hadded]
        omega) h
    refine ⟨fun e => ?_, hgrid'⟩
    rw [hafter, hadded, addedAt_cons, Int.add_assoc]

/-! ## Removals -/

variable {d : LotDelta} {ds : List LotDelta}

/-- Removals take away from each epoch, if at all. -/
theorem addedAt_added_nonpos (h : ∀ d ∈ ds, d.amount.quanta ≤ 0) (e : Epoch) :
    addedAt (ds.map (·.added)) e ≤ 0 := by
  induction ds with
  | nil => exact Int.le_refl 0
  | cons d ds ih =>
    have hd := h d List.mem_cons_self
    have hds := ih fun x hx => h x (List.mem_cons_of_mem d hx)
    rw [List.map_cons, addedAt_cons, LotDelta.added_rawAmount]
    split <;> omega

/-- **What is credited at an epoch** is what is taken there. -/
theorem addedAt_asCredit (ds : List LotDelta) (e : Epoch) :
    addedAt (ds.map (·.asCredit)) e = -addedAt (ds.map (·.added)) e := by
  induction ds with
  | nil => rfl
  | cons d ds ih =>
    have hraw : d.asCredit.rawAmount.quanta = -d.added.rawAmount.quanta := Decimal.quanta_neg _
    have hepoch : d.asCredit.epoch = d.added.epoch := rfl
    rw [List.map_cons, List.map_cons, addedAt_cons, addedAt_cons, ih, hraw, hepoch]
    split <;> omega

/-- **A removal takes its amount at its epoch** and nothing elsewhere. -/
theorem Guarded.amountAt_remove (hg : g.Guarded) (hp : places ≤ 28) (hgrid : g.OnGrid places)
    (hd : d.amount.OnGrid places) (hlt : g.amountAt e < Decimal.gridLimit places)
    (h : g.remove e d = .ok after) :
    (∀ k, after.amountAt k = g.amountAt k + if e = k then d.amount.quanta else 0) ∧
      after.OnGrid places := by
  obtain ⟨hremoval, x, left, hx, hleft, hepoch, hsettle⟩ := remove_cases h
  have hat := amountAt_of_get? hx
  have hpos := hg.amount_pos (mem_of_get? hx)
  have hdown := (LotDelta.nonpos_of_isRemoval hremoval).1
  obtain ⟨-, hraw, -⟩ := Lot.merge_eq_ok hleft
  rw [LotDelta.added_rawAmount] at hraw
  -- what was settled was not overdrawn, so the sum is between zero and what the lot has
  have hsign := Decimal.sign_of_plus hraw
  have hcases := settle_cases hsettle
  obtain ⟨c, hc, hq, hcgrid⟩ := Decimal.exists_add?_of_onGrid hp (hgrid x (mem_of_get? hx)) hd
    (by omega) (by omega)
  rw [Decimal.plus_eq_ok, hc] at hraw
  cases hraw
  obtain ⟨hzero, rfl⟩ | ⟨-, -, -, rfl⟩ := hcases
  · refine ⟨fun k => ?_, hgrid.erase _⟩
    rw [amountAt_erase, hepoch]
    split
    · rename_i hk
      rw [← hk, hat, ← hq, hzero]
    · exact (Int.add_zero _).symm
  · refine ⟨fun k => ?_, hgrid.put hcgrid⟩
    rw [amountAt_put, hepoch]
    split
    · rename_i hk
      rw [← hk, hat, hq]
    · exact (Int.add_zero _).symm

/-- **Removals take their amounts at their epochs.** -/
theorem Guarded.amountAt_applyDeltas (hp : places ≤ 28) : ∀ {g after : Ledger}, g.Guarded →
    g.OnGrid places → (∀ d ∈ ds, d.amount.OnGrid places) →
    (∀ e, g.amountAt e < Decimal.gridLimit places) → g.applyDeltas ds = .ok after →
      (∀ e, after.amountAt e = g.amountAt e + addedAt (ds.map (·.added)) e) ∧
        after.OnGrid places := by
  induction ds with
  | nil =>
    intro g after _ hgrid _ _ h
    cases h
    exact ⟨fun e => (Int.add_zero _).symm, hgrid⟩
  | cons d ds ih =>
    intro g after hg hgrid hds hlt h
    obtain ⟨next, hnext, h⟩ := Outcome.bind_eq_ok.mp h
    have hdown := (LotDelta.nonpos_of_isRemoval (remove_cases hnext).1).1
    obtain ⟨htaken, hnextgrid⟩ :=
      hg.amountAt_remove hp hgrid (hds d List.mem_cons_self) (hlt d.epoch) hnext
    obtain ⟨hafter, hgrid'⟩ := ih (hg.remove hnext) hnextgrid
      (fun x hx => hds x (List.mem_cons_of_mem d hx)) (fun e => by
        have := hlt e
        rw [htaken]
        split <;> omega) h
    refine ⟨fun e => ?_, hgrid'⟩
    rw [hafter, htaken, List.map_cons, addedAt_cons, Int.add_assoc]
    rfl

/-! ## What is refused -/

/-- **Lots are added where each is well-formed**, and are refused for the first that is not,
whatever the ledger; only a merge may overflow. -/
theorem void_appendAll : ∀ {g : Ledger}, g.appendAll ls ≠ .error .overflow →
    (fun _ => ()) <$> g.appendAll ls = ls.forM Lot.check := by
  induction ls with
  | nil => exact fun _ => rfl
  | cons l ls ih =>
    intro g h
    have hcons : g.appendAll (l :: ls) = g.append l >>= fun next => next.appendAll ls := rfl
    have hchecks : (l :: ls).forM Lot.check = l.check >>= fun _ => ls.forM Lot.check := rfl
    rw [hchecks]
    cases hcheck : l.check with
    | error failure =>
      have happend : g.append l = .error failure := by
        unfold append
        rw [hcheck]
        rfl
      rw [hcons, happend]
      rfl
    | ok u =>
      rw [hcons] at h ⊢
      cases happend : g.append l with
      | error failure =>
        -- a lot that passes the check is not refused
        rw [happend, (append_eq_error (l.check_eq_ok.mp hcheck) happend).1] at h
        exact absurd rfl h
      | ok next =>
        rw [happend] at h
        exact ih h

end Ledger

end StakeAccounting

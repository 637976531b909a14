import StakeAccounting.Proofs.Decimal.Grid
import StakeAccounting.Proofs.Ledger.Invariant

/-!
# The amount of a ledger

The **amount** of a ledger is the exact sum of the amounts of its lots. What the
two primitive steps do to it is plain (`Sorted.amount_put`, `Sorted.amount_erase`).
The operations add decimals, which rounds, so they keep count only where no
rounding happens: on a grid that the amount leaves room for. There a deposit adds
its amount (`Guarded.amount_append`) and a removal takes its own
(`Guarded.amount_remove`), whether it splits a lot or drops it, and so do lists of
them. What is on the grid stays on it, so this goes on for ever.

A removal needs no room below zero: a lot that would be overdrawn is refused, and
rounding does not turn a negative sum into anything else.
-/

namespace StakeAccounting

namespace Ledger

/-- **The amount of a ledger**: the exact sum of the amounts of its lots, in units of
`10^-28`. -/
def amount (g : Ledger) : Int := (g.lots.map fun l => l.rawAmount.quanta).sum

/-- **A ledger on a grid**: every amount in it is. -/
def OnGrid (places : Nat) (g : Ledger) : Prop := ∀ l ∈ g.lots, l.rawAmount.OnGrid places

/-! ## The primitive steps -/

/-- A lot of a new epoch adds its amount. -/
theorem amount_put_of_none {g : Ledger} {l : Lot} (h : g.get? l.epoch = none) :
    (g.put l).amount = g.amount + l.rawAmount.quanta := by
  unfold amount
  rw [((perm_put_of_none h).map _).sum_eq, List.map_cons, List.sum_cons]
  omega

/-- **A lot in place of another** adds what it has more. -/
theorem Sorted.amount_put {g : Ledger} {x l : Lot} (hg : g.Sorted)
    (h : g.get? l.epoch = some x) :
    (g.put l).amount + x.rawAmount.quanta = g.amount + l.rawAmount.quanta := by
  obtain ⟨token, lots⟩ := g
  unfold Sorted at hg
  unfold get? at h
  unfold amount Ledger.put
  dsimp only at *
  induction lots with
  | nil => cases h
  | cons y ys ih =>
    obtain ⟨hy, hys⟩ := List.pairwise_cons.mp hg
    unfold putLot
    by_cases hly : l.epoch = y.epoch
    · rw [List.find?_cons_of_pos (by simp [hly])] at h
      cases h
      rw [if_neg (hly ▸ Epoch.lt_irrefl _), if_pos hly]
      simp only [List.map_cons, List.sum_cons]
      omega
    · rw [List.find?_cons_of_neg (by simpa using fun he => hly he.symm)] at h
      have hxl : x.epoch = l.epoch := by simpa using List.find?_some h
      -- the lot that is replaced lies behind the first, so the new one goes there, too
      have hyl : y.epoch < l.epoch := hxl ▸ hy x (List.mem_of_find?_eq_some h)
      rw [if_neg fun hlt => Epoch.lt_irrefl _ (Epoch.lt_trans hlt hyl), if_neg hly]
      simp only [List.map_cons, List.sum_cons]
      have := ih hys h
      omega

/-- **A lot that is dropped** takes its amount with it. -/
theorem Sorted.amount_erase {g : Ledger} {x : Lot} {e : Epoch} (hg : g.Sorted)
    (h : g.get? e = some x) : (g.erase e).amount + x.rawAmount.quanta = g.amount := by
  obtain ⟨token, lots⟩ := g
  unfold Sorted at hg
  unfold get? at h
  unfold amount Ledger.erase
  dsimp only at *
  induction lots with
  | nil => cases h
  | cons y ys ih =>
    obtain ⟨hy, hys⟩ := List.pairwise_cons.mp hg
    by_cases hye : y.epoch = e
    · rw [List.find?_cons_of_pos (by simp [hye])] at h
      cases h
      -- no later lot has the epoch of the first one
      rw [List.filter_cons_of_neg (by simp [hye]), List.filter_eq_self.mpr fun z hz => ?_]
      · simp only [List.map_cons, List.sum_cons]
        omega
      · simpa using fun hze => Epoch.ne_of_lt (hy z hz) (hye.trans hze.symm)
    · rw [List.find?_cons_of_neg (by simpa using hye)] at h
      rw [List.filter_cons_of_pos (by simpa using hye)]
      simp only [List.map_cons, List.sum_cons]
      have := ih hys h
      omega

theorem OnGrid.put {places : Nat} {g : Ledger} {l : Lot} (hg : g.OnGrid places)
    (hl : l.rawAmount.OnGrid places) : (g.put l).OnGrid places := by
  intro x hx
  cases mem_put hx with
  | inl hxl => exact hxl ▸ hl
  | inr hxg => exact hg x hxg

theorem OnGrid.erase {places : Nat} {g : Ledger} (hg : g.OnGrid places) (e : Epoch) :
    (g.erase e).OnGrid places := fun x hx => hg x (mem_erase hx)

/-! ## What is guarded is counted -/

theorem Guarded.amount_pos {g : Ledger} (hg : g.Guarded) {l : Lot} (hl : l ∈ g.lots) :
    0 < l.rawAmount.quanta := (l.guarded_iff.mp (hg.guarded l hl)).1

theorem Guarded.amount_nonneg {g : Ledger} (hg : g.Guarded) : 0 ≤ g.amount := by
  refine List.sum_nonneg fun q hq => ?_
  obtain ⟨l, hl, rfl⟩ := List.mem_map.mp hq
  exact Int.le_of_lt (hg.amount_pos hl)

/-- No lot has more than the ledger. -/
theorem Guarded.le_amount {g : Ledger} (hg : g.Guarded) {l : Lot} (hl : l ∈ g.lots) :
    l.rawAmount.quanta ≤ g.amount := by
  refine List.single_le_sum (fun q hq => ?_) _ (List.mem_map_of_mem hl)
  obtain ⟨x, hx, rfl⟩ := List.mem_map.mp hq
  exact Int.le_of_lt (hg.amount_pos hx)

variable {places : Nat}

/-- **The total of a ledger on a grid** is its amount. -/
theorem Guarded.exists_totalAmount {g : Ledger} (hg : g.Guarded) (hp : places ≤ 28)
    (hgrid : g.OnGrid places) (hlt : g.amount < Decimal.gridLimit places) :
    ∃ c, g.totalAmount = .ok c ∧ c.quanta = g.amount :=
  Decimal.exists_sum_of_onGrid hp
    (fun l hl => ⟨hgrid l hl, Int.le_of_lt (hg.amount_pos hl)⟩) hlt

/-- **A deposit adds its amount**, whether it is merged or not. -/
theorem Guarded.amount_append {g after : Ledger} {l : Lot} (hg : g.Guarded) (hp : places ≤ 28)
    (hgrid : g.OnGrid places) (hl : l.rawAmount.OnGrid places)
    (hlt : g.amount + l.rawAmount.quanta < Decimal.gridLimit places)
    (h : g.append l = .ok after) :
    after.amount = g.amount + l.rawAmount.quanta ∧ after.OnGrid places := by
  obtain ⟨hvalid, ⟨hnone, rfl⟩ | ⟨x, m, hx, hm, rfl⟩⟩ := append_cases h
  · exact ⟨amount_put_of_none hnone, hgrid.put hl⟩
  · have hxg := mem_of_get? hx
    have hle := hg.le_amount hxg
    have hpos := hg.amount_pos hxg
    have hlpos := (l.valid_iff.mp hvalid).1
    obtain ⟨hepoch, hraw, -⟩ := Lot.merge_eq_ok hm
    obtain ⟨c, hc, hq, hcgrid⟩ := Decimal.exists_add?_of_onGrid hp (hgrid x hxg) hl
      (by omega) (by omega)
    rw [Decimal.plus_eq_ok, hc] at hraw
    cases hraw
    have hput := hg.sorted.amount_put (l := m) (hepoch.trans (epoch_of_get? hx) ▸ hx)
    exact ⟨by omega, hgrid.put hcgrid⟩

/-- **A removal takes its amount**, whether it leaves the lot or drops it. -/
theorem Guarded.amount_remove {g after : Ledger} {e : Epoch} {d : LotDelta} (hg : g.Guarded)
    (hp : places ≤ 28) (hgrid : g.OnGrid places) (hd : d.amount.OnGrid places)
    (hlt : g.amount < Decimal.gridLimit places) (h : g.remove e d = .ok after) :
    after.amount = g.amount + d.amount.quanta ∧ after.OnGrid places := by
  obtain ⟨hremoval, x, left, hx, hleft, hepoch, hsettle⟩ := remove_cases h
  have hxg := mem_of_get? hx
  have hle := hg.le_amount hxg
  have hdown := (LotDelta.nonpos_of_isRemoval hremoval).1
  obtain ⟨-, hraw, -⟩ := Lot.merge_eq_ok hleft
  rw [LotDelta.added_rawAmount] at hraw
  -- rounding keeps the sign, so a lot that was settled was not overdrawn
  have hsign := Decimal.sign_of_plus hraw
  have hcases := settle_cases hsettle
  obtain ⟨c, hc, hq, hcgrid⟩ := Decimal.exists_add?_of_onGrid hp (hgrid x hxg) hd
    (by omega) (by omega)
  rw [Decimal.plus_eq_ok, hc] at hraw
  cases hraw
  obtain ⟨hzero, rfl⟩ | ⟨-, -, -, rfl⟩ := hcases
  · have herase := hg.sorted.amount_erase (hepoch ▸ hx)
    exact ⟨by omega, hgrid.erase _⟩
  · have hput := hg.sorted.amount_put (hepoch ▸ hx)
    exact ⟨by omega, hgrid.put hcgrid⟩

/-! ## Lists of deposits and removals -/

/-- Only valid lots are added. -/
theorem valid_of_appendAll {ls : List Lot} : ∀ {g after : Ledger}, g.appendAll ls = .ok after →
    ∀ l ∈ ls, l.Valid := by
  induction ls with
  | nil => exact fun _ _ hl => nomatch hl
  | cons x ls ih =>
    intro g after h l hl
    obtain ⟨next, hnext, h⟩ := Outcome.bind_eq_ok.mp h
    cases List.mem_cons.mp hl with
    | inl hlx => exact hlx ▸ (append_cases hnext).1
    | inr hls => exact ih h l hls

/-- **Deposits add their amounts.** -/
theorem Guarded.amount_appendAll (hp : places ≤ 28) {ls : List Lot} :
    ∀ {g after : Ledger}, g.Guarded → g.OnGrid places →
      (∀ l ∈ ls, l.rawAmount.OnGrid places) →
      g.amount + (ls.map fun l => l.rawAmount.quanta).sum < Decimal.gridLimit places →
      g.appendAll ls = .ok after →
        after.amount = g.amount + (ls.map fun l => l.rawAmount.quanta).sum ∧
          after.OnGrid places := by
  induction ls with
  | nil =>
    intro g after hg hgrid _ _ h
    cases h
    exact ⟨by simp, hgrid⟩
  | cons l ls ih =>
    intro g after hg hgrid hls hlt h
    obtain ⟨next, hnext, h⟩ := Outcome.bind_eq_ok.mp h
    have hrest : 0 ≤ (ls.map fun l => l.rawAmount.quanta).sum := by
      refine List.sum_nonneg fun q hq => ?_
      obtain ⟨x, hx, rfl⟩ := List.mem_map.mp hq
      exact Int.le_of_lt (x.valid_iff.mp (valid_of_appendAll h x hx)).1
    rw [List.map_cons, List.sum_cons] at hlt ⊢
    obtain ⟨hamount, hnextgrid⟩ :=
      hg.amount_append hp hgrid (hls l (List.mem_cons_self ..)) (by omega) hnext
    obtain ⟨hafter, hgrid'⟩ := ih (hg.append hnext) hnextgrid
      (fun x hx => hls x (List.mem_cons_of_mem l hx)) (by omega) h
    exact ⟨by omega, hgrid'⟩

/-- **Removals take their amounts.** -/
theorem Guarded.amount_removeAll (hp : places ≤ 28) {ps : List (Epoch × LotDelta)} :
    ∀ {g after : Ledger}, g.Guarded → g.OnGrid places →
      (∀ p ∈ ps, p.2.amount.OnGrid places) → g.amount < Decimal.gridLimit places →
      g.removeAll ps = .ok after →
        after.amount = g.amount + (ps.map fun p => p.2.amount.quanta).sum ∧
          after.OnGrid places := by
  induction ps with
  | nil =>
    intro g after hg hgrid _ _ h
    cases h
    exact ⟨by simp, hgrid⟩
  | cons p ps ih =>
    intro g after hg hgrid hps hlt h
    obtain ⟨next, hnext, h⟩ := removeAll_cons_eq_ok.mp h
    have hdown := (LotDelta.nonpos_of_isRemoval (remove_cases hnext).1).1
    obtain ⟨hamount, hnextgrid⟩ :=
      hg.amount_remove hp hgrid (hps p (List.mem_cons_self ..)) hlt hnext
    obtain ⟨hafter, hgrid'⟩ := ih (hg.remove hnext) hnextgrid
      (fun x hx => hps x (List.mem_cons_of_mem p hx)) (by omega) h
    rw [List.map_cons, List.sum_cons]
    exact ⟨by omega, hgrid'⟩

/-- Removals that are applied take their amounts. -/
theorem Guarded.amount_applyDeltas {g after : Ledger} {ds : List LotDelta} (hg : g.Guarded)
    (hp : places ≤ 28) (hgrid : g.OnGrid places) (hds : ∀ d ∈ ds, d.amount.OnGrid places)
    (hlt : g.amount < Decimal.gridLimit places) (h : g.applyDeltas ds = .ok after) :
    after.amount = g.amount + (ds.map fun d => d.amount.quanta).sum ∧ after.OnGrid places := by
  rw [applyDeltas_eq_removeAll] at h
  have hremoved := hg.amount_removeAll hp hgrid (fun p hmem => by
    obtain ⟨d, hd, rfl⟩ := List.mem_map.mp hmem
    exact hds d hd) hlt h
  rwa [addressed, List.map_map] at hremoved

/-- **Removals that are credited** add what they take. -/
theorem Guarded.amount_credit {g after : Ledger} {ds : List LotDelta} (hg : g.Guarded)
    (hp : places ≤ 28) (hgrid : g.OnGrid places) (hds : ∀ d ∈ ds, d.amount.OnGrid places)
    (hlt : g.amount - (ds.map fun d => d.amount.quanta).sum < Decimal.gridLimit places)
    (h : g.appendAll (ds.map (·.asCredit)) = .ok after) :
    after.amount = g.amount - (ds.map fun d => d.amount.quanta).sum ∧ after.OnGrid places := by
  have hsum : ((ds.map (·.asCredit)).map fun l => l.rawAmount.quanta).sum =
      -(ds.map fun d => d.amount.quanta).sum := by
    rw [List.sum_neg, List.map_map, List.map_map]
    exact congrArg List.sum (List.map_congr_left fun d _ => Decimal.quanta_neg d.amount)
  rw [Int.sub_eq_add_neg, ← hsum] at hlt ⊢
  refine hg.amount_appendAll hp hgrid (fun l hl => ?_) hlt h
  obtain ⟨d, hd, rfl⟩ := List.mem_map.mp hl
  exact (hds d hd).neg

/-! ## A ledger from lots -/

/-- **Valid lots of different epochs are all added**, if there is no lot of their epochs
yet. -/
theorem exists_appendAll {ls : List Lot} : ∀ {g : Ledger}, (∀ l ∈ ls, l.Valid) →
    (ls.map (·.epoch)).Nodup → (∀ l ∈ ls, g.get? l.epoch = none) →
      ∃ after, g.appendAll ls = .ok after ∧ after.lots.Perm (g.lots ++ ls) := by
  induction ls with
  | nil => exact fun {g} _ _ _ => ⟨g, rfl, by rw [List.append_nil]⟩
  | cons l ls ih =>
    intro g hvalid hnodup hnone
    obtain ⟨hnew, hnodup⟩ := List.nodup_cons.mp hnodup
    have hput := hnone l (List.mem_cons_self ..)
    have hrest : ∀ x ∈ ls, (g.put l).get? x.epoch = none := fun x hx => by
      have hne : l.epoch ≠ x.epoch := fun he => hnew (List.mem_map.mpr ⟨x, hx, he.symm⟩)
      rw [get?_put_of_ne hne]
      exact hnone x (List.mem_cons_of_mem l hx)
    obtain ⟨after, hafter, hperm⟩ :=
      ih (fun x hx => hvalid x (List.mem_cons_of_mem l hx)) hnodup hrest
    have happend := append_of_none (hvalid l (List.mem_cons_self ..)) hput
    refine ⟨after, Outcome.bind_eq_ok.mpr ⟨_, happend, hafter⟩, ?_⟩
    exact hperm.trans (((perm_put_of_none hput).append_right ls).trans List.perm_middle.symm)

/-- **Valid lots of different epochs make a ledger**, and it has these lots. -/
theorem exists_ofLots (token : TokenId) {ls : List Lot} (hvalid : ∀ l ∈ ls, l.Valid)
    (hnodup : (ls.map (·.epoch)).Nodup) :
    ∃ g, ofLots token ls = .ok g ∧ g.lots.Perm ls :=
  exists_appendAll hvalid hnodup fun _ _ => rfl

/-- **A well-formed ledger is the ledger of its lots**, as there is one order of them only.
-/
theorem WellFormed.ofLots_lots {g : Ledger} (hg : g.WellFormed) :
    ofLots g.token g.lots = .ok g := by
  obtain ⟨⟨token, lots⟩, hx, hperm⟩ := exists_ofLots g.token hg.valid hg.sorted.nodup_epochs
  have htoken : token = (empty g.token).token := token_appendAll hx
  have hlots : lots = g.lots := by
    refine hperm.eq_of_pairwise (fun a b _ _ hab hba => ?_) (wellFormed_of_ofLots hx).sorted
      hg.sorted
    exact absurd (Epoch.lt_trans hab hba) (Epoch.lt_irrefl _)
  rw [hx, htoken, hlots]
  rfl

end Ledger

end StakeAccounting

import StakeAccounting.Ledger.Change
import StakeAccounting.Proofs.Decimal.Nearest

/-!
# The shape of a ledger

A ledger keeps its lots in ascending order of their epochs, one to an epoch. The
two primitive steps `Ledger.put` and `Ledger.erase` keep it so (`Sorted.put`,
`Sorted.erase`), and in a ledger of this shape the lot of an epoch is the one that
is listed (`Sorted.get?_of_mem`).

What the operations do to it is said once for each of them: `append_cases` and
`remove_cases` list the ways in which they succeed, with every guard. A lot is
changed in one way only, by adding parts to its parts, be it a deposit that is
merged or a removal that is taken (`rest_eq_merge`), so `merge_eq_ok` is about both.
-/

namespace StakeAccounting

/-- **What every step keeps, a fold keeps**, as far as it goes through. The induction is on
the list. -/
theorem Outcome.foldlM_keeps {α β : Type} {f : β → α → Outcome β} {P : β → Prop}
    {as : List α} (hstep : ∀ a ∈ as, ∀ b next, P b → f b a = .ok next → P next) :
    ∀ {b after : β}, P b → as.foldlM f b = .ok after → P after := by
  induction as with
  | nil =>
    intro b after hb h
    cases h
    exact hb
  | cons a as ih =>
    intro b after hb h
    obtain ⟨next, hnext, h⟩ := Outcome.bind_eq_ok.mp h
    exact ih (fun x hx => hstep x (List.mem_cons_of_mem a hx))
      (hstep a (List.mem_cons_self ..) b next hb hnext) h

namespace Epoch

theorem lt_irrefl (a : Epoch) : ¬ a < a := by
  rw [lt_def]
  omega

theorem lt_trans {a b c : Epoch} (hab : a < b) (hbc : b < c) : a < c := by
  rw [lt_def] at hab hbc ⊢
  omega

theorem ne_of_lt {a b : Epoch} (h : a < b) : a ≠ b := by
  intro heq
  rw [heq] at h
  exact lt_irrefl b h

/-- An epoch that is neither before another nor the same comes after it. -/
theorem lt_of_not_lt_of_ne {a b : Epoch} (hlt : ¬ a < b) (hne : a ≠ b) : b < a := by
  rw [lt_def] at hlt ⊢
  have : a.number.toNat ≠ b.number.toNat := fun h => hne (ext_toNat h)
  omega

end Epoch

/-! ## Lots -/

namespace Lot

theorem valid_iff (l : Lot) : l.Valid ↔ 0 < l.rawAmount.quanta ∧ 0 ≤ l.baseValue.quanta ∧
    0 ≤ l.stakeWeight.quanta ∧ 0 ≤ l.yieldRate.quanta := by
  simp only [Valid, Decimal.lt_def, Decimal.le_def, Decimal.quanta_zero]

/-- **A merge adds part by part**, under the epoch there is. -/
theorem merge_eq_ok {l other m : Lot} (h : l.merge other = .ok m) :
    m.epoch = l.epoch ∧ l.rawAmount.plus other.rawAmount = .ok m.rawAmount ∧
      l.baseValue.plus other.baseValue = .ok m.baseValue ∧
      l.stakeWeight.plus other.stakeWeight = .ok m.stakeWeight ∧
      l.yieldRate.plus other.yieldRate = .ok m.yieldRate := by
  unfold merge at h
  obtain ⟨rawAmount, hraw, h⟩ := Outcome.bind_eq_ok.mp h
  obtain ⟨baseValue, hbase, h⟩ := Outcome.bind_eq_ok.mp h
  obtain ⟨stakeWeight, hstake, h⟩ := Outcome.bind_eq_ok.mp h
  obtain ⟨yieldRate, hyield, h⟩ := Outcome.bind_eq_ok.mp h
  cases h
  exact ⟨rfl, hraw, hbase, hstake, hyield⟩

/-- **A merge fails by overflow alone**, as no sum in it is guarded. -/
theorem overflow_of_merge {l other : Lot} {failure : Failure}
    (h : l.merge other = .error failure) : failure = .overflow := by
  unfold merge at h
  obtain h | ⟨_, -, h⟩ := Outcome.bind_eq_error.mp h
  · exact Outcome.overflow_of_orOverflow h
  obtain h | ⟨_, -, h⟩ := Outcome.bind_eq_error.mp h
  · exact Outcome.overflow_of_orOverflow h
  obtain h | ⟨_, -, h⟩ := Outcome.bind_eq_error.mp h
  · exact Outcome.overflow_of_orOverflow h
  obtain h | ⟨_, -, h⟩ := Outcome.bind_eq_error.mp h
  · exact Outcome.overflow_of_orOverflow h
  · cases h

/-- Two valid lots make a valid one. -/
theorem Valid.merge {l other m : Lot} (hl : l.Valid) (ho : other.Valid)
    (h : l.merge other = .ok m) : m.Valid := by
  obtain ⟨-, hraw, hbase, hstake, hyield⟩ := merge_eq_ok h
  have h₁ := Decimal.sign_of_plus hraw
  have h₂ := Decimal.sign_of_plus hbase
  have h₃ := Decimal.sign_of_plus hstake
  have h₄ := Decimal.sign_of_plus hyield
  rw [valid_iff] at hl ho ⊢
  omega

end Lot

namespace LotDelta

/-- What a change adds to a lot, as a lot. -/
def added (d : LotDelta) : Lot :=
  ⟨d.epoch, d.amount, d.baseValue, d.baseStakeWeight, d.yieldRate⟩

@[simp] theorem added_rawAmount (d : LotDelta) : d.added.rawAmount = d.amount := rfl

@[simp] theorem added_baseValue (d : LotDelta) : d.added.baseValue = d.baseValue := rfl

/-- A removal adds to no part of a lot. -/
theorem nonpos_of_isRemoval {d : LotDelta} (h : d.isRemoval = true) :
    d.amount.quanta ≤ 0 ∧ d.baseValue.quanta ≤ 0 ∧ d.baseStakeWeight.quanta ≤ 0 ∧
      d.yieldRate.quanta ≤ 0 := by
  unfold isRemoval at h
  simp only [Bool.and_eq_true, Decimal.takesAway_iff, Decimal.le_def, Decimal.quanta_zero] at h
  obtain ⟨⟨⟨⟨hamount, hbase⟩, hyield⟩, hstake⟩, -⟩ := h
  exact ⟨hamount, hbase, hstake, hyield⟩

end LotDelta

namespace Ledger

/-! ## Order -/

/-- What is listed after a lot is put was listed before, or is the lot. -/
theorem mem_putLot {l x : Lot} {xs : List Lot} (h : x ∈ putLot l xs) : x = l ∨ x ∈ xs := by
  induction xs with
  | nil => exact Or.inl (List.mem_singleton.mp h)
  | cons y ys ih =>
    unfold putLot at h
    split at h
    · exact List.mem_cons.mp h
    · split at h
      · cases List.mem_cons.mp h with
        | inl hx => exact Or.inl hx
        | inr hx => exact Or.inr (List.mem_cons_of_mem y hx)
      · cases List.mem_cons.mp h with
        | inl hx => exact Or.inr (hx ▸ List.mem_cons_self ..)
        | inr hx => exact (ih hx).imp_right (List.mem_cons_of_mem y)

theorem mem_put {g : Ledger} {l x : Lot} (h : x ∈ (g.put l).lots) : x = l ∨ x ∈ g.lots :=
  mem_putLot h

theorem mem_erase {g : Ledger} {e : Epoch} {x : Lot} (h : x ∈ (g.erase e).lots) : x ∈ g.lots :=
  (List.mem_filter.mp h).1

/-- **A lot of a new epoch is put among the others.** -/
theorem perm_put_of_none {g : Ledger} {l : Lot} (h : g.get? l.epoch = none) :
    (g.put l).lots.Perm (l :: g.lots) := by
  obtain ⟨token, lots⟩ := g
  unfold get? at h
  unfold Ledger.put
  dsimp only at *
  induction lots with
  | nil => exact .refl _
  | cons x xs ih =>
    rw [List.find?_eq_none] at h
    have hx : l.epoch ≠ x.epoch := fun he => h x (List.mem_cons_self ..) (by simp [he])
    unfold putLot
    rw [if_neg hx]
    split
    · exact .refl _
    · have hxs := ih (List.find?_eq_none.mpr fun y hy => h y (List.mem_cons_of_mem x hy))
      exact (hxs.cons x).trans (.swap ..)

/-- Behind the newest lot there is none. -/
theorem get?_of_forall_lt {g : Ledger} {e : Epoch} (h : ∀ x ∈ g.lots, x.epoch < e) :
    g.get? e = none :=
  List.find?_eq_none.mpr fun x hx => by simpa using Epoch.ne_of_lt (h x hx)

/-- **A lot that is newer than the others** is put behind them. -/
theorem lots_put_of_newer {g : Ledger} {l : Lot} (h : ∀ x ∈ g.lots, x.epoch < l.epoch) :
    (g.put l).lots = g.lots ++ [l] := by
  obtain ⟨token, lots⟩ := g
  unfold Ledger.put
  dsimp only at *
  induction lots with
  | nil => rfl
  | cons x xs ih =>
    have hx : x.epoch < l.epoch := h x List.mem_cons_self
    unfold putLot
    rw [if_neg fun hlt => Epoch.lt_irrefl _ (Epoch.lt_trans hlt hx),
      if_neg (Epoch.ne_of_lt hx).symm, ih fun y hy => h y (List.mem_cons_of_mem x hy)]
    rfl

/-- **A lot of a new epoch is put and erased** without a trace. -/
theorem erase_put_of_none {g : Ledger} {l : Lot} (h : g.get? l.epoch = none) :
    (g.put l).erase l.epoch = g := by
  obtain ⟨token, lots⟩ := g
  unfold get? at h
  unfold Ledger.put Ledger.erase
  dsimp only at *
  rw [List.find?_eq_none] at h
  rw [mk.injEq, and_iff_right rfl]
  induction lots with
  | nil => simp [putLot]
  | cons x xs ih =>
    have hothers : ∀ y ∈ x :: xs, (y.epoch != l.epoch) = true := fun y hy => by
      simpa using h y hy
    unfold putLot
    split
    · rw [List.filter_cons_of_neg (by simp), List.filter_eq_self.mpr hothers]
    · split
      · rename_i he
        exact absurd he.symm (by simpa using hothers x List.mem_cons_self)
      · have hx := hothers x List.mem_cons_self
        have hxs := ih fun y hy => h y (List.mem_cons_of_mem x hy)
        rw [List.filter_cons, if_pos hx, hxs]

@[simp] theorem token_put (g : Ledger) (l : Lot) : (g.put l).token = g.token := rfl

@[simp] theorem token_erase (g : Ledger) (e : Epoch) : (g.erase e).token = g.token := rfl

theorem sorted_empty (token : TokenId) : (empty token).Sorted := List.Pairwise.nil

/-- **Putting a lot keeps the order.** -/
theorem Sorted.put {g : Ledger} (h : g.Sorted) (l : Lot) : (g.put l).Sorted := by
  obtain ⟨token, lots⟩ := g
  unfold Sorted Ledger.put at *
  dsimp only at *
  induction lots with
  | nil => exact List.pairwise_singleton _ _
  | cons x xs ih =>
    obtain ⟨hx, hxs⟩ := List.pairwise_cons.mp h
    unfold putLot
    split
    · rename_i hlt
      refine List.pairwise_cons.mpr ⟨fun y hy => ?_, h⟩
      cases List.mem_cons.mp hy with
      | inl hyx => exact hyx ▸ hlt
      | inr hyxs => exact Epoch.lt_trans hlt (hx y hyxs)
    · split
      · rename_i heq
        exact List.pairwise_cons.mpr ⟨fun y hy => heq ▸ hx y hy, hxs⟩
      · rename_i hlt hne
        refine List.pairwise_cons.mpr ⟨fun y hy => ?_, ih hxs⟩
        cases mem_putLot hy with
        | inl hyl => exact hyl ▸ Epoch.lt_of_not_lt_of_ne hlt hne
        | inr hyxs => exact hx y hyxs

/-- **Erasing a lot keeps the order.** -/
theorem Sorted.erase {g : Ledger} (h : g.Sorted) (e : Epoch) : (g.erase e).Sorted :=
  List.Pairwise.filter _ h

/-- **In order, the lot of an epoch is the one that is listed.** -/
theorem Sorted.get?_of_mem {g : Ledger} (h : g.Sorted) {l : Lot} (hl : l ∈ g.lots) :
    g.get? l.epoch = some l := by
  obtain ⟨token, lots⟩ := g
  unfold Sorted at h
  unfold get?
  dsimp only at *
  induction lots with
  | nil => cases hl
  | cons x xs ih =>
    obtain ⟨hx, hxs⟩ := List.pairwise_cons.mp h
    cases List.mem_cons.mp hl with
    | inl hlx => rw [hlx, List.find?_cons_of_pos (by simp)]
    | inr hlxs =>
      rw [List.find?_cons_of_neg (by simpa using Epoch.ne_of_lt (hx l hlxs)), ih hxs hlxs]

/-- In order, no two lots have the same epoch. -/
theorem Sorted.nodup_epochs {g : Ledger} (h : g.Sorted) : (g.lots.map (·.epoch)).Nodup := by
  rw [List.Nodup, List.pairwise_map]
  exact h.imp Epoch.ne_of_lt

/-- There is a lot of the epochs of the lots. -/
theorem isSome_get?_iff {g : Ledger} {e : Epoch} :
    (g.get? e).isSome ↔ e ∈ g.lots.map (·.epoch) := by
  rw [get?, List.find?_isSome, List.mem_map]
  simp only [beq_iff_eq]

/-- **What is listed after a lot is put** is the lot and those of other epochs. -/
theorem Sorted.mem_put_iff {g : Ledger} {l x : Lot} (hg : g.Sorted) :
    x ∈ (g.put l).lots ↔ x = l ∨ x ∈ g.lots ∧ l.epoch ≠ x.epoch := by
  constructor
  · intro hx
    have hget := (hg.put l).get?_of_mem hx
    by_cases he : l.epoch = x.epoch
    · rw [← he, get?_put_self] at hget
      exact Or.inl (Option.some.inj hget).symm
    · rw [get?_put_of_ne he] at hget
      exact Or.inr ⟨mem_of_get? hget, he⟩
  · rintro (rfl | ⟨hx, hne⟩)
    · exact mem_of_get? (get?_put_self g x)
    · exact mem_of_get? ((get?_put_of_ne hne).trans (hg.get?_of_mem hx))

/-- The epochs behind a lot that is put are its own and those before. -/
theorem Sorted.mem_epochs_put {g : Ledger} {x : Lot} {e : Epoch} (hg : g.Sorted) :
    e ∈ (g.put x).lots.map (·.epoch) ↔ e ∈ g.lots.map (·.epoch) ∨ e = x.epoch := by
  rw [List.mem_map, List.mem_map]
  constructor
  · rintro ⟨y, hy, rfl⟩
    rcases hg.mem_put_iff.mp hy with rfl | ⟨hy, -⟩
    · exact Or.inr rfl
    · exact Or.inl ⟨y, hy, rfl⟩
  · intro hmem
    by_cases he : x.epoch = e
    · exact ⟨x, hg.mem_put_iff.mpr (Or.inl rfl), he⟩
    · obtain ⟨y, hy, rfl⟩ := hmem.resolve_right (Ne.symm he)
      exact ⟨y, hg.mem_put_iff.mpr (Or.inr ⟨hy, he⟩), rfl⟩

/-! ## What the operations do -/

/-- **Adding a deposit** succeeds for a valid lot, which is put in its place or
merged into the lot of its epoch. -/
theorem append_cases {g after : Ledger} {l : Lot} (h : g.append l = .ok after) :
    l.Valid ∧ (g.get? l.epoch = none ∧ after = g.put l ∨
      ∃ x m, g.get? l.epoch = some x ∧ x.merge l = .ok m ∧ after = g.put m) := by
  unfold append at h
  obtain ⟨_, hcheck, h⟩ := Outcome.bind_eq_ok.mp h
  refine ⟨l.check_eq_ok.mp hcheck, ?_⟩
  split at h
  · rename_i x hx
    obtain ⟨m, hm, h⟩ := Outcome.bind_eq_ok.mp h
    cases h
    exact Or.inr ⟨x, m, hx, hm, rfl⟩
  · rename_i hnone
    cases h
    exact Or.inl ⟨hnone, rfl⟩

/-- A valid lot of a new epoch is put in its place. -/
theorem append_of_none {g : Ledger} {l : Lot} (hl : l.Valid) (hnone : g.get? l.epoch = none) :
    g.append l = .ok (g.put l) := by
  unfold append
  rw [l.check_eq_ok.mpr hl, hnone]
  rfl

/-- A valid lot is merged into the lot of its epoch. -/
theorem append_of_some {g : Ledger} {l x m : Lot} (hl : l.Valid) (hx : g.get? l.epoch = some x)
    (hm : x.merge l = .ok m) : g.append l = .ok (g.put m) := by
  unfold append
  rw [l.check_eq_ok.mpr hl, hx]
  exact Outcome.bind_eq_ok.mpr ⟨(), rfl, Outcome.bind_eq_ok.mpr ⟨m, hm, rfl⟩⟩

/-- **A valid lot is never refused.** If it cannot be added, that is for an overflow in the
merge with a lot that is there. -/
theorem append_eq_error {g : Ledger} {l : Lot} {failure : Failure} (hl : l.Valid)
    (h : g.append l = .error failure) :
    failure = .overflow ∧ ∃ x, g.get? l.epoch = some x := by
  unfold append at h
  rw [l.check_eq_ok.mpr hl] at h
  obtain hcheck | ⟨_, -, h⟩ := Outcome.bind_eq_error.mp h
  · cases hcheck
  · split at h
    · rename_i x hx
      obtain hmerge | ⟨m, -, hput⟩ := Outcome.bind_eq_error.mp h
      · exact ⟨Lot.overflow_of_merge hmerge, x, hx⟩
      · cases hput
    · cases h

/-- Taking a removal from a lot is merging what it adds, all of it negative. -/
theorem rest_eq_merge (l : Lot) (d : LotDelta) : rest l d = l.merge d.added := rfl

/-- **Settling** drops a lot whose amount is used up, and keeps one with an amount
left if its stake weight and its yield rate are not overdrawn. -/
theorem settle_cases {g after : Ledger} {left : Lot} (h : g.settle left = .ok after) :
    left.rawAmount.quanta = 0 ∧ after = g.erase left.epoch ∨
      0 < left.rawAmount.quanta ∧ 0 ≤ left.stakeWeight.quanta ∧ 0 ≤ left.yieldRate.quanta ∧
        after = g.put left := by
  unfold settle at h
  simp only [Decimal.lt_def, Decimal.quanta_zero] at h
  split at h
  · cases h
  · split at h
    · rename_i hzero
      cases h
      exact Or.inl ⟨(Decimal.isZero_iff _).mp hzero, rfl⟩
    · rename_i hzero
      rw [Decimal.isZero_iff] at hzero
      split at h
      · cases h
      · split at h
        · cases h
        · cases h
          exact Or.inr ⟨by omega, by omega, by omega, rfl⟩

/-- **Taking a removal** succeeds for a removal from a lot there is, if what is left
of the lot can be settled. -/
theorem remove_cases {g after : Ledger} {e : Epoch} {d : LotDelta}
    (h : g.remove e d = .ok after) :
    d.isRemoval = true ∧ ∃ l left, g.get? e = some l ∧ l.merge d.added = .ok left ∧
      left.epoch = e ∧ g.settle left = .ok after := by
  unfold remove at h
  split at h
  · rename_i hremoval
    refine ⟨hremoval, ?_⟩
    split at h
    · cases h
    · rename_i l hl
      obtain ⟨left, hleft, h⟩ := Outcome.bind_eq_ok.mp h
      rw [rest_eq_merge] at hleft
      exact ⟨l, left, hl, hleft, (Lot.merge_eq_ok hleft).1.trans (epoch_of_get? hl), h⟩
  · cases h

/-- **What all lots have and a merge keeps**, a deposit that has it keeps. -/
theorem forall_append {P : Lot → Prop} {g after : Ledger} {l : Lot}
    (hmerge : ∀ x m, P x → P l → x.merge l = .ok m → P m) (hg : ∀ x ∈ g.lots, P x) (hl : P l)
    (h : g.append l = .ok after) : ∀ x ∈ after.lots, P x := by
  intro y hy
  obtain ⟨-, ⟨-, rfl⟩ | ⟨x, m, hx, hm, rfl⟩⟩ := append_cases h
  · cases mem_put hy with
    | inl hyl => exact hyl ▸ hl
    | inr hyg => exact hg y hyg
  · cases mem_put hy with
    | inl hym => exact hym ▸ hmerge x m (hg x (mem_of_get? hx)) hl hm
    | inr hyg => exact hg y hyg

/-- What all lots have and a merge keeps, deposits that have it keep. -/
theorem forall_appendAll {P : Lot → Prop} {ls : List Lot}
    (hmerge : ∀ x l m, P x → P l → x.merge l = .ok m → P m) (hls : ∀ l ∈ ls, P l)
    {g after : Ledger} (hg : ∀ x ∈ g.lots, P x) (h : g.appendAll ls = .ok after) :
    ∀ x ∈ after.lots, P x :=
  Outcome.foldlM_keeps (P := fun g => ∀ x ∈ g.lots, P x)
    (fun l hl _ _ hg hnext => forall_append (fun x m => hmerge x l m) hg (hls l hl) hnext) hg h

/-- What all lots have, and what is left of a lot with it, too, a removal keeps. -/
theorem forall_remove {P : Lot → Prop} {g after : Ledger} {e : Epoch} {d : LotDelta}
    (hleft : ∀ x left, P x → x.merge d.added = .ok left → P left) (hg : ∀ x ∈ g.lots, P x)
    (h : g.remove e d = .ok after) : ∀ x ∈ after.lots, P x := by
  intro y hy
  obtain ⟨-, x, left, hx, hmerge, -, hsettle⟩ := remove_cases h
  obtain ⟨-, rfl⟩ | ⟨-, -, -, rfl⟩ := settle_cases hsettle
  · exact hg y (mem_erase hy)
  · cases mem_put hy with
    | inl hyl => exact hyl ▸ hleft x left (hg x (mem_of_get? hx)) hmerge
    | inr hyg => exact hg y hyg

/-- What all lots have, and what is left of a lot with it, too, removals keep. -/
theorem forall_applyDeltas {P : Lot → Prop} {ds : List LotDelta}
    (hleft : ∀ d ∈ ds, ∀ x left, P x → x.merge d.added = .ok left → P left)
    {g after : Ledger} (hg : ∀ x ∈ g.lots, P x) (h : g.applyDeltas ds = .ok after) :
    ∀ x ∈ after.lots, P x :=
  Outcome.foldlM_keeps (P := fun g => ∀ x ∈ g.lots, P x)
    (fun d hd _ _ hg hnext => forall_remove (hleft d hd) hg hnext) hg h

/-- A removal moves no lot of another epoch. -/
theorem get?_remove_of_ne {g after : Ledger} {e k : Epoch} {d : LotDelta}
    (h : g.remove e d = .ok after) (hk : e ≠ k) : after.get? k = g.get? k := by
  obtain ⟨-, l, left, -, -, he, hsettle⟩ := remove_cases h
  cases settle_cases hsettle with
  | inl herase =>
    rw [herase.2, he]
    exact get?_erase_of_ne hk
  | inr hput =>
    rw [hput.2.2.2]
    exact get?_put_of_ne (he ▸ hk)

/-! ## The token of a ledger -/

theorem token_append {g after : Ledger} {l : Lot} (h : g.append l = .ok after) :
    after.token = g.token := by
  obtain ⟨-, ⟨-, rfl⟩ | ⟨x, m, -, -, rfl⟩⟩ := append_cases h
  · exact token_put g l
  · exact token_put g m

theorem token_appendAll {g after : Ledger} {ls : List Lot} (h : g.appendAll ls = .ok after) :
    after.token = g.token :=
  Outcome.foldlM_keeps (P := fun x => x.token = g.token)
    (fun _ _ _ _ hx hnext => (token_append hnext).trans hx) rfl h

theorem token_remove {g after : Ledger} {e : Epoch} {d : LotDelta}
    (h : g.remove e d = .ok after) : after.token = g.token := by
  obtain ⟨-, l, left, -, -, -, hsettle⟩ := remove_cases h
  obtain ⟨-, rfl⟩ | ⟨-, -, -, rfl⟩ := settle_cases hsettle
  · exact token_erase g left.epoch
  · exact token_put g left

theorem token_applyDeltas {g after : Ledger} {ds : List LotDelta}
    (h : g.applyDeltas ds = .ok after) : after.token = g.token :=
  Outcome.foldlM_keeps (P := fun x => x.token = g.token)
    (fun _ _ _ _ hx hnext => (token_remove hnext).trans hx) rfl h

end Ledger

end StakeAccounting

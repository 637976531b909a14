import StakeAccounting.Proofs.Ledger.Shape

/-!
# Changes of a ledger, lot by lot

A list of deposits or of removals goes through a ledger in order, and each step reads the ledger
the steps before it left. Where no epoch is listed twice this makes no difference: what becomes
of the lot of an epoch is decided by the one change of that epoch and by the lot that was there
at the start (`get?_foldlM_of_mem`), and the lots of other epochs stay
(`get?_foldlM_of_not_mem`). `Adds` and `Removes` say what a single change makes of a lot, with
a constructor for each way it can go, so a whole list does that at each of its epochs
(`get?_appendAll_of_mem`, `get?_applyDeltas_of_mem`), and so do the credits of a list of removals
(`get?_appendCredits_of_mem`). Ledgers are compared in the same way, epoch by epoch and by their
values (`Ledger.Same`).
-/

namespace StakeAccounting

/-- What relates everything to itself relates every option to itself. -/
theorem optionRel_refl {α : Type} {R : α → α → Prop} (hR : ∀ a, R a a) :
    ∀ o : Option α, Option.Rel R o o
  | none => Option.Rel.none
  | some a => Option.Rel.some (hR a)

namespace Lot

/-- **Lots of one epoch with the same values.** -/
structure Same (l m : Lot) : Prop where
  /-- They are of the same epoch. -/
  epoch : l.epoch = m.epoch
  /-- The amounts are the same. -/
  rawAmount : l.rawAmount.Same m.rawAmount
  /-- The base values are the same. -/
  baseValue : l.baseValue.Same m.baseValue
  /-- The stake weights are the same. -/
  stakeWeight : l.stakeWeight.Same m.stakeWeight
  /-- The yield rates are the same. -/
  yieldRate : l.yieldRate.Same m.yieldRate

theorem Same.refl (l : Lot) : l.Same l := ⟨rfl, rfl, rfl, rfl, rfl⟩

end Lot

namespace Ledger

/-! ## The same values -/

/-- **Ledgers with the same values**: of one token, with lots of the same epochs, and at each
epoch with the same values. -/
structure Same (g h : Ledger) : Prop where
  /-- They are of the same token. -/
  token : g.token = h.token
  /-- There are lots of the same epochs, with the same values. -/
  lots : ∀ e, Option.Rel Lot.Same (g.get? e) (h.get? e)

theorem Same.refl (g : Ledger) : g.Same g := ⟨rfl, fun _ => optionRel_refl Lot.Same.refl _⟩

variable {g after : Ledger} {l : Lot} {ls : List Lot} {d : LotDelta} {ds : List LotDelta}
  {e : Epoch}

/-! ## Lists of changes -/

section Fold

variable {α : Type} {f : Ledger → α → Outcome Ledger} {k : α → Epoch} {as : List α}

/-- **Changes touch no lot but those of their epochs**, if that is so for each. -/
theorem get?_foldlM_of_not_mem
    (hother : ∀ g a next e, f g a = .ok next → k a ≠ e → next.get? e = g.get? e)
    (he : e ∉ as.map k) (h : as.foldlM f g = .ok after) : after.get? e = g.get? e := by
  refine Outcome.foldlM_keeps (P := fun x => x.get? e = g.get? e) (fun a ha x next hx hnext => ?_)
    rfl h
  have hne : k a ≠ e := fun heq => he (List.mem_map.mpr ⟨a, ha, heq⟩)
  rw [hother x a next e hnext hne, hx]

/-- **Changes of different epochs** each do to the lot that was there at the start what they do
alone. The induction is on the changes: those before the one of this k and those behind it
are of other epochs. -/
theorem get?_foldlM_of_mem {R : Option Lot → α → Option Lot → Prop} {a : α}
    (hother : ∀ g a next e, f g a = .ok next → k a ≠ e → next.get? e = g.get? e)
    (hself : ∀ g a next, f g a = .ok next → R (g.get? (k a)) a (next.get? (k a))) :
    ∀ {g : Ledger}, (as.map k).Nodup → a ∈ as → as.foldlM f g = .ok after →
      R (g.get? (k a)) a (after.get? (k a)) := by
  induction as with
  | nil => exact fun _ hmem => nomatch hmem
  | cons x xs ih =>
    intro g hnodup hmem h
    obtain ⟨next, hnext, hrest⟩ := Outcome.bind_eq_ok.mp h
    obtain ⟨hx, hnodup⟩ := List.nodup_cons.mp hnodup
    cases List.mem_cons.mp hmem with
    | inl hax =>
      rw [hax, get?_foldlM_of_not_mem hother hx hrest]
      exact hself g x next hnext
    | inr hxs =>
      have hne : k x ≠ k a := fun heq => hx (List.mem_map.mpr ⟨a, hxs, heq.symm⟩)
      rw [← hother g x next _ hnext hne]
      exact ih hnodup hxs hrest

end Fold

/-! ## Deposits -/

/-- **What a deposit makes of the lot of its epoch.** -/
inductive Adds : Option Lot → Lot → Option Lot → Prop
  /-- Where there is none, the deposit is the lot. -/
  | new (l : Lot) : Adds none l (some l)
  /-- The lot that is there is merged with the deposit. -/
  | merged {x l m : Lot} (hm : x.merge l = .ok m) : Adds (some x) l (some m)

/-- A deposit adds to the lot of its epoch. -/
theorem get?_append_self (h : g.append l = .ok after) :
    Adds (g.get? l.epoch) l (after.get? l.epoch) := by
  obtain ⟨-, ⟨hnone, rfl⟩ | ⟨x, m, hx, hm, rfl⟩⟩ := append_cases h
  · rw [hnone, get?_put_self]
    exact Adds.new l
  · have hepoch : m.epoch = l.epoch := (Lot.merge_eq_ok hm).1.trans (epoch_of_get? hx)
    rw [hx, ← hepoch, get?_put_self]
    exact Adds.merged hm

/-- A deposit moves no lot of another epoch. -/
theorem get?_append_of_ne (h : g.append l = .ok after) (he : l.epoch ≠ e) :
    after.get? e = g.get? e := by
  obtain ⟨-, ⟨-, rfl⟩ | ⟨x, m, hx, hm, rfl⟩⟩ := append_cases h
  · exact get?_put_of_ne he
  · exact get?_put_of_ne (((Lot.merge_eq_ok hm).1.trans (epoch_of_get? hx)).trans_ne he)

/-- **Deposits touch no lot but those of their epochs.** -/
theorem get?_appendAll_of_not_mem (he : e ∉ ls.map (·.epoch)) (h : g.appendAll ls = .ok after) :
    after.get? e = g.get? e :=
  get?_foldlM_of_not_mem (f := append) (k := Lot.epoch) (fun _ _ _ _ => get?_append_of_ne) he h

/-- **Deposits of different epochs** each add to the lot that was there at the start. -/
theorem get?_appendAll_of_mem (hnodup : (ls.map (·.epoch)).Nodup) (hl : l ∈ ls)
    (h : g.appendAll ls = .ok after) : Adds (g.get? l.epoch) l (after.get? l.epoch) :=
  get?_foldlM_of_mem (f := append) (k := Lot.epoch) (fun _ _ _ _ => get?_append_of_ne)
    (fun _ _ _ => get?_append_self) hnodup hl h

/-! ## Removals -/

/-- **What a removal makes of the lot it is taken from.** -/
inductive Removes : Option Lot → LotDelta → Option Lot → Prop
  /-- Where nothing of the amount is left, the lot is dropped. -/
  | dropped {l left : Lot} {d : LotDelta} (hleft : l.merge d.added = .ok left)
      (hzero : left.rawAmount.quanta = 0) : Removes (some l) d none
  /-- Else what is left of the lot takes its place. -/
  | kept {l left : Lot} {d : LotDelta} (hleft : l.merge d.added = .ok left)
      (hpos : 0 < left.rawAmount.quanta) (hstake : 0 ≤ left.stakeWeight.quanta)
      (hyield : 0 ≤ left.yieldRate.quanta) : Removes (some l) d (some left)

/-- A removal removes from its lot. -/
theorem get?_remove_self (h : g.remove e d = .ok after) : Removes (g.get? e) d (after.get? e) := by
  obtain ⟨-, l, left, hl, hleft, rfl, hsettle⟩ := remove_cases h
  rw [hl]
  obtain ⟨hzero, rfl⟩ | ⟨hpos, hstake, hyield, rfl⟩ := settle_cases hsettle
  · rw [get?_erase_self]
    exact Removes.dropped hleft hzero
  · rw [get?_put_self]
    exact Removes.kept hleft hpos hstake hyield

/-- **Removals touch no lot but those they name.** -/
theorem get?_applyDeltas_of_not_mem (he : e ∉ ds.map (·.epoch))
    (h : g.applyDeltas ds = .ok after) : after.get? e = g.get? e :=
  get?_foldlM_of_not_mem (f := fun g (d : LotDelta) => g.remove d.epoch d) (k := LotDelta.epoch)
    (fun _ _ _ _ => get?_remove_of_ne) he h

/-- **Removals from different lots** each remove from the lot that was there at the start. -/
theorem get?_applyDeltas_of_mem (hnodup : (ds.map (·.epoch)).Nodup) (hd : d ∈ ds)
    (h : g.applyDeltas ds = .ok after) : Removes (g.get? d.epoch) d (after.get? d.epoch) :=
  get?_foldlM_of_mem (f := fun g (d : LotDelta) => g.remove d.epoch d) (k := LotDelta.epoch)
    (fun _ _ _ _ => get?_remove_of_ne) (fun _ _ _ => get?_remove_self) hnodup hd h

/-- **What is applied to different lots** are removals. -/
theorem isRemoval_of_applyDeltas (hnodup : (ds.map (·.epoch)).Nodup) (hd : d ∈ ds)
    (h : g.applyDeltas ds = .ok after) : d.isRemoval = true :=
  get?_foldlM_of_mem (f := fun g (d : LotDelta) => g.remove d.epoch d) (k := LotDelta.epoch)
    (R := fun _ d _ => d.isRemoval = true) (fun _ _ _ _ => get?_remove_of_ne)
    (fun _ _ _ hnext => (remove_cases hnext).1) hnodup hd h

/-! ## Credits of removals -/

/-- The credits of removals have the epochs of the removals. -/
theorem epochs_asCredit (ds : List LotDelta) :
    (ds.map (·.asCredit)).map (·.epoch) = ds.map (·.epoch) := List.map_map

/-- **Credits touch no lot but those of the removals.** -/
theorem get?_appendCredits_of_not_mem (he : e ∉ ds.map (·.epoch))
    (h : g.appendAll (ds.map (·.asCredit)) = .ok after) : after.get? e = g.get? e :=
  get?_appendAll_of_not_mem (epochs_asCredit ds ▸ he) h

/-- **The credits of removals from different lots** each add to the lot that was there at the
start. -/
theorem get?_appendCredits_of_mem (hnodup : (ds.map (·.epoch)).Nodup) (hd : d ∈ ds)
    (h : g.appendAll (ds.map (·.asCredit)) = .ok after) :
    Adds (g.get? d.epoch) d.asCredit (after.get? d.epoch) :=
  get?_appendAll_of_mem (epochs_asCredit ds ▸ hnodup) (List.mem_map_of_mem hd) h

end Ledger

end StakeAccounting

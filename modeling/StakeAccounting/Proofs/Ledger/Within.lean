import StakeAccounting.Proofs.Ledger.Invariant

/-!
# Removals within their lots

A removal is **within** a lot where it takes some of the amount, and no more than
there is of the amount, the base value and the yield rate; one that takes the whole
amount also takes no more than the stake weight that is stored (`LotDelta.Within`).
Removals from different lots do not touch each other, so a list of them with distinct
epochs can be judged by the ledger it starts from.

Two things follow. Such a list overdraws no base value, so a ledger is well-formed
behind it (`WellFormed.applyDeltas`). And there is one thing left that can go wrong
with it: the part of a lot that is taken is to give up more stake weight than the lot
stores. `applyDeltas_of_within` says that this is refused, and that nothing else is.
-/

namespace StakeAccounting

/-- **A removal within a lot.** Only the stake weight of a part is left open. -/
structure LotDelta.Within (d : LotDelta) (l : Lot) : Prop where
  /-- It is taken from that lot. -/
  epoch : d.epoch = l.epoch
  /-- It takes some of the amount. -/
  amount_neg : d.amount.quanta < 0
  /-- It takes no more than the amount. -/
  amount : 0 ≤ l.rawAmount.quanta + d.amount.quanta
  /-- It takes no more than the base value. -/
  baseValue : 0 ≤ l.baseValue.quanta + d.baseValue.quanta
  /-- It takes no more than the yield rate. -/
  yieldRate : 0 ≤ l.yieldRate.quanta + d.yieldRate.quanta
  /-- With the whole amount it takes no more than the stake weight. -/
  whole : l.rawAmount.quanta + d.amount.quanta = 0 →
    0 ≤ l.stakeWeight.quanta + d.baseStakeWeight.quanta

namespace Ledger

/-! ## What no list of removals overdraws -/

/-- Removals from different lots, each of no more base value than its lot has,
overdraw no base value. -/
theorem not_overdrawsAt {e : Epoch} {ps : List (Epoch × LotDelta)} : ∀ {g : Ledger},
    (ps.map Prod.fst).Nodup →
      (∀ p ∈ ps, ∀ l, g.get? p.1 = some l → 0 ≤ l.baseValue.quanta + p.2.baseValue.quanta) →
      ¬ OverdrawsAt e g ps := by
  induction ps with
  | nil => exact fun _ _ ho => ho
  | cons p ps ih =>
    obtain ⟨k, d⟩ := p
    intro g hnodup hall ho
    obtain ⟨hk, hnodup⟩ := List.nodup_cons.mp hnodup
    rcases ho with ⟨rfl, l, hl, hlt⟩ | ⟨next, hnext, ho⟩
    · have hfits : 0 ≤ l.baseValue.quanta + d.baseValue.quanta :=
        hall (k, d) (List.mem_cons_self ..) l hl
      omega
    · refine ih hnodup (fun p hp l hl => ?_) ho
      have hne : k ≠ p.1 := fun he => hk (List.mem_map.mpr ⟨p, hp, he.symm⟩)
      exact hall p (List.mem_cons_of_mem _ hp) l (get?_remove_of_ne hnext hne ▸ hl)

/-- **Removals within their lots keep a ledger well-formed.** -/
theorem WellFormed.applyDeltas {g after : Ledger} {ds : List LotDelta} (hg : g.WellFormed)
    (hnodup : (ds.map (·.epoch)).Nodup)
    (hall : ∀ d ∈ ds, ∀ l, g.get? d.epoch = some l →
      0 ≤ l.baseValue.quanta + d.baseValue.quanta)
    (h : g.applyDeltas ds = .ok after) : after.WellFormed := by
  have hperform : g.perform (.apply ds) = (after, .ok ()) := perform_of_ok h
  have hkeeps := (wellFormed_perform_iff hg (.apply ds)).mpr ?_
  · rwa [hperform] at hkeeps
  · rintro ⟨-, e, -, -, ho⟩
    refine not_overdrawsAt ?_ ?_ ho
    · show ((ds.map fun d => (d.epoch, d)).map Prod.fst).Nodup
      rwa [List.map_map]
    · intro p hp l hl
      obtain ⟨d, hd, rfl⟩ := List.mem_map.mp hp
      exact hall d hd l hl

/-! ## The one thing that can go wrong -/

/-- **The stored stake weight covers a removal**: the lot it is taken from stores as
much as it takes. -/
def Covers (g : Ledger) (d : LotDelta) : Prop :=
  ∀ l, g.get? d.epoch = some l → 0 ≤ l.stakeWeight.quanta + d.baseStakeWeight.quanta

theorem covers_iff {g : Ledger} {d : LotDelta} {l : Lot} (hl : g.get? d.epoch = some l) :
    g.Covers d ↔ 0 ≤ l.stakeWeight.quanta + d.baseStakeWeight.quanta := by
  refine ⟨fun h => h l hl, fun h x hx => ?_⟩
  rw [hl] at hx
  exact Option.some.inj hx ▸ h

theorem not_covers_iff {g : Ledger} {d : LotDelta} :
    ¬ g.Covers d ↔ ∃ l, g.get? d.epoch = some l ∧ l.stakeWeight < -d.baseStakeWeight := by
  unfold Covers
  push Not
  refine exists_congr fun l => and_congr_right fun _ => ?_
  rw [Decimal.lt_def, Decimal.quanta_neg]
  omega

/-- A removal from another lot changes nothing about what is covered. -/
theorem covers_remove_iff {g next : Ledger} {c d : LotDelta} (h : g.remove c.epoch c = .ok next)
    (hne : c.epoch ≠ d.epoch) : next.Covers d ↔ g.Covers d := by
  unfold Covers
  rw [get?_remove_of_ne h hne]

/-- **A removal within its lot** is taken if it is covered, and else refused for the
stake weight that is left, rounded. -/
theorem remove_of_within {g : Ledger} {l : Lot} {d : LotDelta} (hl : g.get? d.epoch = some l)
    (hvalid : l.Valid) (hd : d.Within l) (hremoval : d.isRemoval = true) :
    (g.Covers d ∧ ∃ after, g.remove d.epoch d = .ok after) ∨
      ¬ g.Covers d ∧ ∃ rest, l.stakeWeight.plus d.baseStakeWeight = .ok rest ∧
        g.remove d.epoch d = Outcome.refuseLot d.epoch (.shareOverdrawn .stakeWeight rest) := by
  obtain ⟨hraw, hbase, hstake, hyield⟩ := l.valid_iff.mp hvalid
  obtain ⟨hraw', hbase', hstake', hyield'⟩ := LotDelta.nonpos_of_isRemoval hremoval
  obtain ⟨rawAmount, h₁⟩ := Decimal.exists_plus_of_opposite (Int.le_of_lt hraw) hraw'
  obtain ⟨baseValue, h₂⟩ := Decimal.exists_plus_of_opposite hbase hbase'
  obtain ⟨stakeWeight, h₃⟩ := Decimal.exists_plus_of_opposite hstake hstake'
  obtain ⟨yieldRate, h₄⟩ := Decimal.exists_plus_of_opposite hyield hyield'
  have hrest : rest l d = .ok ⟨l.epoch, rawAmount, baseValue, stakeWeight, yieldRate⟩ := by
    unfold rest
    rw [h₁, h₂, h₃, h₄]
    rfl
  have hremove : g.remove d.epoch d =
      g.settle ⟨l.epoch, rawAmount, baseValue, stakeWeight, yieldRate⟩ := by
    unfold remove
    rw [if_pos hremoval, hl]
    dsimp only
    rw [hrest]
    rfl
  -- each part of what is left has the sign of the exact difference
  have hsraw := Decimal.sign_of_plus h₁
  have hsstake := Decimal.sign_of_plus h₃
  have hsyield := Decimal.sign_of_plus h₄
  have hamount := hd.amount
  have hyields := hd.yieldRate
  have hwhole := hd.whole
  rw [hremove, covers_iff hl, hd.epoch]
  unfold settle
  simp only [Decimal.lt_def, Decimal.quanta_zero, Decimal.isZero_iff]
  rw [if_neg (by omega)]
  by_cases hzero : rawAmount.quanta = 0
  · rw [if_pos hzero]
    exact Or.inl ⟨hwhole (by omega), _, rfl⟩
  · rw [if_neg hzero]
    by_cases hover : stakeWeight.quanta < 0
    · rw [if_pos hover]
      exact Or.inr ⟨by omega, stakeWeight, h₃, rfl⟩
    · rw [if_neg hover, if_neg (by omega)]
      exact Or.inl ⟨by omega, _, rfl⟩

/-- **Removals within their lots**, from different lots: they are taken if all of them
are covered, and else refused for the stake weight one of them would leave. -/
theorem applyDeltas_of_within {ds : List LotDelta} : ∀ {g : Ledger},
    (ds.map (·.epoch)).Nodup →
      (∀ d ∈ ds, d.isRemoval = true ∧ ∃ l, g.get? d.epoch = some l ∧ l.Valid ∧ d.Within l) →
      ((∀ d ∈ ds, g.Covers d) ∧ ∃ after, g.applyDeltas ds = .ok after) ∨
        (∃ d ∈ ds, ¬ g.Covers d) ∧ ∃ e rest,
          g.applyDeltas ds = Outcome.refuseLot e (.shareOverdrawn .stakeWeight rest) := by
  induction ds with
  | nil =>
    intro g _ _
    exact Or.inl ⟨fun d hd => absurd hd List.not_mem_nil, g, rfl⟩
  | cons d ds ih =>
    intro g hnodup hall
    obtain ⟨hnew, hnodup⟩ := List.nodup_cons.mp hnodup
    obtain ⟨hremoval, l, hl, hvalid, hd⟩ := hall d (List.mem_cons_self ..)
    have hcons : g.applyDeltas (d :: ds) = g.remove d.epoch d >>= fun next =>
      next.applyDeltas ds := rfl
    rcases remove_of_within hl hvalid hd hremoval with
      ⟨hcovers, next, hnext⟩ | ⟨hover, rest, -, hno⟩
    · -- the lots of the other removals are as they were
      have hne : ∀ x ∈ ds, d.epoch ≠ x.epoch := fun x hx he =>
        hnew (List.mem_map.mpr ⟨x, hx, he.symm⟩)
      have hstep := ih (g := next) hnodup fun x hx => by
        rw [get?_remove_of_ne hnext (hne x hx)]
        exact hall x (List.mem_cons_of_mem d hx)
      rw [hcons, hnext]
      rcases hstep with ⟨hrest, after, hafter⟩ | ⟨⟨x, hx, hover⟩, hno⟩
      · refine Or.inl ⟨fun x hx => ?_, after, hafter⟩
        cases List.mem_cons.mp hx with
        | inl hxd => exact hxd ▸ hcovers
        | inr hxds => exact (covers_remove_iff hnext (hne x hxds)).mp (hrest x hxds)
      · refine Or.inr ⟨⟨x, List.mem_cons_of_mem d hx, fun hcovered => hover ?_⟩, hno⟩
        exact (covers_remove_iff hnext (hne x hx)).mpr hcovered
    · rw [hcons, hno]
      exact Or.inr ⟨⟨d, List.mem_cons_self .., hover⟩, d.epoch, rest, rfl⟩

end Ledger

end StakeAccounting

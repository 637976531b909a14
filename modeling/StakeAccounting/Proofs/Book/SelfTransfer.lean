import StakeAccounting.Proofs.Book.Step
import StakeAccounting.Proofs.Decimal.Restored
import StakeAccounting.Proofs.Ledger.Pointwise

/-!
# Transfers to oneself

A transfer from an account to itself debits a ledger and credits it again with what was taken,
so the book should be as before. Lots that are not drawn on are. Those that are drawn whole are
dropped and made anew from their removals, with the values they had. The lot that is drawn in
part is not so safe: each of its four parts goes through a rounded subtraction and a rounded
addition, and comes back unless it is lost on the way (`Lot.Loses`).

So the book is the same in value exactly where no removal makes its lot lose a part
(`self_transfer_same_iff`), and there are lots that do (`self_transfer_loses`).
-/

namespace StakeAccounting

namespace Lot

/-- **A lot loses a part** to a removal that is taken and put back. -/
def Loses (l : Lot) (d : LotDelta) : Prop :=
  l.rawAmount.Loses d.amount ∨ l.baseValue.Loses d.baseValue ∨
    l.stakeWeight.Loses d.baseStakeWeight ∨ l.yieldRate.Loses d.yieldRate

variable {l left back : Lot} {d : LotDelta}

/-- **A removal that is put back into what it left** makes the lot it was, unless that loses a
part. -/
theorem same_iff_of_merge (hd : d.isRemoval = true) (hin : d.Within l)
    (hstake : 0 ≤ left.stakeWeight.quanta) (hleft : l.merge d.added = .ok left)
    (hback : left.merge d.asCredit = .ok back) : back.Same l ↔ ¬ l.Loses d := by
  obtain ⟨hraw, hbase, hweight, hyield⟩ := LotDelta.nonpos_of_isRemoval hd
  obtain ⟨he, hraw₁, hbase₁, hweight₁, hyield₁⟩ := merge_eq_ok hleft
  obtain ⟨he', hraw₂, hbase₂, hweight₂, hyield₂⟩ := merge_eq_ok hback
  have hcovered : 0 ≤ l.stakeWeight.quanta + d.baseStakeWeight.quanta := by
    have hsign := Decimal.sign_of_plus (b := d.baseStakeWeight) hweight₁
    omega
  have h₁ := Decimal.plus_neg_same_iff hraw hin.amount hraw₁ hraw₂
  have h₂ := Decimal.plus_neg_same_iff hbase hin.baseValue hbase₁ hbase₂
  have h₃ := Decimal.plus_neg_same_iff hweight hcovered hweight₁ hweight₂
  have h₄ := Decimal.plus_neg_same_iff hyield hin.yieldRate hyield₁ hyield₂
  unfold Loses
  rw [not_or, not_or, not_or, ← h₁, ← h₂, ← h₃, ← h₄]
  constructor
  · exact fun h => ⟨h.rawAmount, h.baseValue, h.stakeWeight, h.yieldRate⟩
  · exact fun ⟨g₁, g₂, g₃, g₄⟩ => ⟨he'.trans he, g₁, g₂, g₃, g₄⟩

/-- **A lot loses nothing to a removal of all it has.** -/
theorem not_loses_of_same (hsame : d.asCredit.Same l) (hleft : l.merge d.added = .ok left) :
    ¬ l.Loses d := by
  obtain ⟨-, hraw, hbase, hweight, hyield⟩ := merge_eq_ok hleft
  have hpart : ∀ {a b c : Decimal}, (-b).Same a → a.plus b = .ok c → ¬ a.Loses b := by
    intro a b c hs hc
    rw [Decimal.same_def, Decimal.quanta_neg] at hs
    have hsign := Decimal.sign_of_plus hc
    refine Decimal.not_loses_of_exact ?_
    rw [hc]
    exact congrArg Except.ok (show c.quanta = a.quanta + b.quanta by omega)
  unfold Loses
  rw [not_or, not_or, not_or]
  exact ⟨hpart hsame.rawAmount hraw, hpart hsame.baseValue hbase,
    hpart hsame.stakeWeight hweight, hpart hsame.yieldRate hyield⟩

end Lot

namespace Selector

/-- **What takes the whole amount of a lot** takes all that it stores. -/
theorem Takes.asCredit_same {s : Selector} {t : Token} {now : Epoch} {l : Lot} {d : LotDelta}
    (h : s.Takes t now l d) (hwhole : l.rawAmount.quanta + d.amount.quanta = 0) :
    d.asCredit.Same l := by
  obtain ⟨consumed, -, -, h⟩ := h
  obtain ⟨baseValue, yieldRate, base, grown, accrued, stakeWeight, hshare, -, -, -, rfl⟩ :=
    split_eq_ok h
  change l.rawAmount.quanta + (-consumed).quanta = 0 at hwhole
  rw [Decimal.quanta_neg] at hwhole
  obtain ⟨hsame, rfl, rfl, rfl⟩ | ⟨hpart, -⟩ := shareOf_cases hshare
  · unfold LotDelta.asCredit
    simp only [Decimal.neg_neg]
    exact ⟨rfl, hsame, rfl, rfl, rfl⟩
  · rw [Decimal.same_def] at hpart
    omega

end Selector

namespace Ledger

variable {s : Selector} {order : SelectionOrder} {id : TokenId} {requested : Decimal}
  {now : Epoch} {sel : Selection} {g debited credited : Ledger} {d : LotDelta}

/-- **A lot that is drawn on** is there after its removal is put back, and it is the same unless
it loses a part. -/
theorem WellFormed.get?_credited (hg : g.WellFormed)
    (hsel : s.select order id requested g.lots now = .ok sel)
    (hdebited : g.applyDeltas sel.deltas = .ok debited)
    (hcredited : debited.appendAll (sel.deltas.map (·.asCredit)) = .ok credited)
    (hd : d ∈ sel.deltas) : ∃ l back, g.get? d.epoch = some l ∧
      credited.get? d.epoch = some back ∧ (back.Same l ↔ ¬ l.Loses d) := by
  obtain ⟨hnodup, t, -, htakes⟩ := Selector.exists_takes hsel
  obtain ⟨l, hl, hvalid, htake⟩ := htakes d hd
  have hget : g.get? d.epoch = some l := by
    rw [htake.epoch_eq]
    exact hg.sorted.get?_of_mem hl
  have hremoves := get?_applyDeltas_of_mem hnodup hd hdebited
  have hadds := get?_appendCredits_of_mem hnodup hd hcredited
  rw [hget] at hremoves ⊢
  generalize debited.get? d.epoch = between at hremoves hadds
  generalize credited.get? d.epoch = after at hadds ⊢
  refine ⟨l, ?_⟩
  cases hremoves with
  | @dropped _ left _ hleft hzero =>
    cases hadds
    have hsign := Decimal.sign_of_plus (Lot.merge_eq_ok hleft).2.1
    rw [LotDelta.added_rawAmount] at hsign
    have hsame := htake.asCredit_same (by omega)
    exact ⟨_, rfl, rfl, iff_of_true hsame (Lot.not_loses_of_same hsame hleft)⟩
  | kept hleft hpos hstake hyield =>
    cases hadds with
    | merged hback =>
      exact ⟨_, rfl, rfl, Lot.same_iff_of_merge (isRemoval_of_applyDeltas hnodup hd hdebited)
        (htake.within hvalid) hstake hleft hback⟩

/-- **A lot that is not drawn on** stays as it is. -/
theorem get?_credited_of_not_mem {e : Epoch} {ds : List LotDelta}
    (hdebited : g.applyDeltas ds = .ok debited)
    (hcredited : debited.appendAll (ds.map (·.asCredit)) = .ok credited)
    (he : e ∉ ds.map (·.epoch)) : credited.get? e = g.get? e := by
  rw [get?_appendCredits_of_not_mem he hcredited, get?_applyDeltas_of_not_mem he hdebited]

/-- **Lots are there of the same epochs** after the removals of a selection are put back. -/
theorem WellFormed.isSome_get?_credited (hg : g.WellFormed)
    (hsel : s.select order id requested g.lots now = .ok sel)
    (hdebited : g.applyDeltas sel.deltas = .ok debited)
    (hcredited : debited.appendAll (sel.deltas.map (·.asCredit)) = .ok credited) (e : Epoch) :
    (credited.get? e).isSome = (g.get? e).isSome := by
  by_cases he : e ∈ sel.deltas.map (·.epoch)
  · obtain ⟨d, hd, rfl⟩ := List.mem_map.mp he
    obtain ⟨l, back, hl, hback, -⟩ := hg.get?_credited hsel hdebited hcredited hd
    rw [hl, hback]
    rfl
  · rw [get?_credited_of_not_mem hdebited hcredited he]

/-- **A ledger is the same** after the removals of a selection are put back exactly where no lot
loses a part to its removal. -/
theorem WellFormed.same_credited_iff (hg : g.WellFormed)
    (hsel : s.select order id requested g.lots now = .ok sel)
    (hdebited : g.applyDeltas sel.deltas = .ok debited)
    (hcredited : debited.appendAll (sel.deltas.map (·.asCredit)) = .ok credited) :
    credited.Same g ↔ ∀ d ∈ sel.deltas, ∀ l, g.get? d.epoch = some l → ¬ l.Loses d := by
  constructor
  · intro hsame d hd x hx
    obtain ⟨l, back, hl, hback, hiff⟩ := hg.get?_credited hsel hdebited hcredited hd
    have hrel := hsame.lots d.epoch
    rw [hl, hback] at hrel
    obtain rfl := Option.some.inj (hl.symm.trans hx)
    cases hrel with
    | some hlot => exact hiff.mp hlot
  · intro hkeeps
    refine ⟨(token_appendAll hcredited).trans (token_applyDeltas hdebited), fun e => ?_⟩
    by_cases he : e ∈ sel.deltas.map (·.epoch)
    · obtain ⟨d, hd, rfl⟩ := List.mem_map.mp he
      obtain ⟨l, back, hl, hback, hiff⟩ := hg.get?_credited hsel hdebited hcredited hd
      rw [hl, hback]
      exact Option.Rel.some (hiff.mpr (hkeeps d hd l hl))
    · rw [get?_credited_of_not_mem hdebited hcredited he]
      exact optionRel_refl Lot.Same.refl _

end Ledger

namespace Book

/-- **Books with the same values**: they keep ledgers for the same holdings, and these have the
same values. -/
def Same (b c : Book) : Prop := ∀ k, Option.Rel Ledger.Same (b.ledger? k) (c.ledger? k)

/-- Books with the same values have the same amounts. -/
theorem Same.map_get? {b c : Book} (h : b.Same c) (k : Holding) (e : Epoch) :
    ((b.ledgerOrEmpty k).get? e).map (·.rawAmount.quanta) =
      ((c.ledgerOrEmpty k).get? e).map (·.rawAmount.quanta) := by
  have hledgers := h k
  unfold ledgerOrEmpty
  generalize b.ledger? k = x at hledgers
  generalize c.ledger? k = y at hledgers
  cases hledgers with
  | none => rfl
  | @some g g' hsame =>
    have hlots := hsame.lots e
    rw [Option.getD_some, Option.getD_some]
    generalize g.get? e = l at hlots
    generalize g'.get? e = m at hlots
    cases hlots with
    | none => rfl
    | some hlot => exact congrArg some hlot.rawAmount

/-- **Books that differ in one ledger at most** have the same values where the ledger has. -/
theorem same_iff_of_others {b c : Book} {k : Holding} {g g' : Ledger}
    (hother : ∀ j, j ≠ k → b.ledger? j = c.ledger? j) (hb : b.ledger? k = some g)
    (hc : c.ledger? k = some g') : b.Same c ↔ g.Same g' := by
  constructor
  · intro hsame
    have hledgers := hsame k
    rw [hb, hc] at hledgers
    cases hledgers with
    | some hledger => exact hledger
  · intro hsame j
    by_cases hj : j = k
    · rw [hj, hb, hc]
      exact Option.Rel.some hsame
    · rw [hother j hj]
      exact optionRel_refl Ledger.Same.refl _

variable {b : Book} {s : Selector} {owner : Account} {token : TokenId} {amount : Decimal}
  {now : Epoch} {sel : Selection}

/-- **Where a transfer to oneself changes nothing.** In a well-formed book, a transfer from an
account to itself that succeeds touches no other holding, and no lot that it does not draw on;
there are lots of the same epochs afterwards. The book has the same values exactly where none of
the lots that are drawn on loses a part to its removal. -/
theorem self_transfer_same_iff (hb : b.WellFormed)
    (h : (b.transfer s owner owner token amount now).2 = .ok sel) :
    let held : Holding := ⟨owner, token⟩
    let after := (b.transfer s owner owner token amount now).1
    (∀ k, k ≠ held → after.ledger? k = b.ledger? k) ∧
    (∀ e, e ∉ sel.epochs → (after.ledgerOrEmpty held).get? e = (b.ledgerOrEmpty held).get? e) ∧
    (∀ e, ((after.ledgerOrEmpty held).get? e).isSome =
      ((b.ledgerOrEmpty held).get? e).isSome) ∧
    (after.Same b ↔ ∀ d ∈ sel.deltas, ∀ l, (b.ledgerOrEmpty held).get? d.epoch = some l →
      ¬ l.Loses d) := by
  intro held after
  have henters : Enters b (.transfer s owner owner token amount now) (.moved sel) after :=
    enters_of_transfer h
  generalize after = afterwards at henters ⊢
  cases henters with
  | transfer hne => exact absurd rfl hne
  | @transferSelf _ _ _ _ _ _ source debited credited hsel hsource hdebited hcredited =>
    obtain rfl : source = b.ledgerOrEmpty held := hb.eq_of_ofLots hsource
    have hg := hb.ledger held
    have htoken : credited.token = held.token := ((Ledger.token_appendAll hcredited).trans
      (Ledger.token_applyDeltas hdebited)).trans (hb.token held)
    have hview : (b.commit held credited).ledgerOrEmpty held = credited := by
      rw [ledgerOrEmpty_commit htoken, Function.update_self]
    have hother : ∀ k, k ≠ held → (b.commit held credited).ledger? k = b.ledger? k := by
      intro k hk
      rw [ledger?_commit, Function.update_of_ne hk]
    have hsome := hg.isSome_get?_credited hsel hdebited hcredited
    -- there are lots before and afterwards, so a ledger is kept
    obtain ⟨l, hl⟩ := List.exists_mem_of_ne_nil _ (Selector.lots_ne_nil_of_select hsel)
    have hlot := hg.sorted.get?_of_mem hl
    have hbefore := ledger?_of_get? hlot
    have hafter : (b.commit held credited).ledger? held = some credited := by
      obtain ⟨x, hx⟩ := Option.isSome_iff_exists.mp ((hsome l.epoch).trans (by rw [hlot]; rfl))
      have hkept := ledger?_of_get? (b := b.commit held credited) (hview.symm ▸ hx)
      rwa [hview] at hkept
    rw [hview]
    refine ⟨hother, fun e he => Ledger.get?_credited_of_not_mem hdebited hcredited he, hsome, ?_⟩
    exact (same_iff_of_others hother hafter hbefore).trans
      (hg.same_credited_iff hsel hdebited hcredited)

/-- Of lots of ten and five tokens, seven are transferred to oneself: the newer lot is dropped and
made anew, and two go from the older lot and come back. The book is the same. -/
theorem self_transfer_same_iff_seven :
    let owner : Account := ⟨List.replicate 20 1, rfl⟩
    let held : Holding := ⟨owner, TokenTable.beanId⟩
    let s : Selector := ⟨.standard, Selector.standardAccrualRate⟩
    let b := (empty.run
      [ .deposit .standard .none held (.ofUInt32 10) ⟨24⟩,
        .deposit .standard .none held (.ofUInt32 5) ⟨77⟩ ]).1
    ∃ sel, (b.transfer s owner owner TokenTable.beanId (.ofUInt32 7) ⟨100⟩).2 = .ok sel ∧
      sel.epochs = [⟨77⟩, ⟨24⟩] ∧
      (b.transfer s owner owner TokenTable.beanId (.ofUInt32 7) ⟨100⟩).1.Same b := by
  intro owner held s b
  obtain ⟨sel, hsel⟩ :
      ∃ sel, (b.transfer s owner owner TokenTable.beanId (.ofUInt32 7) ⟨100⟩).2 = .ok sel :=
    Outcome.exists_ok_of_answer? (by decide +kernel)
  -- all parts are whole tokens, so no sum is rounded
  have hexact : (fun x : Selection => decide (x.epochs = [⟨77⟩, ⟨24⟩] ∧
      ∀ d ∈ x.deltas, ∀ l ∈ b.lots held,
        Decimal.quanta <$> l.rawAmount.plus d.amount =
          .ok (l.rawAmount.quanta + d.amount.quanta) ∧
        Decimal.quanta <$> l.baseValue.plus d.baseValue =
          .ok (l.baseValue.quanta + d.baseValue.quanta) ∧
        Decimal.quanta <$> l.stakeWeight.plus d.baseStakeWeight =
          .ok (l.stakeWeight.quanta + d.baseStakeWeight.quanta) ∧
        Decimal.quanta <$> l.yieldRate.plus d.yieldRate =
          .ok (l.yieldRate.quanta + d.yieldRate.quanta))) <$>
      (b.transfer s owner owner TokenTable.beanId (.ofUInt32 7) ⟨100⟩).2 = .ok true := by
    decide +kernel
  rw [hsel] at hexact
  obtain ⟨hepochs, hexact⟩ := of_decide_eq_true (Except.ok.inj hexact)
  obtain ⟨-, -, -, hsame⟩ := self_transfer_same_iff (wellFormed_empty.run _) hsel
  refine ⟨sel, hsel, hepochs, hsame.mpr fun d hd l hl => ?_⟩
  obtain ⟨h₁, h₂, h₃, h₄⟩ := hexact d hd l (Ledger.mem_of_get? hl)
  rintro (hlost | hlost | hlost | hlost)
  · exact Decimal.not_loses_of_exact h₁ hlost
  · exact Decimal.not_loses_of_exact h₂ hlost
  · exact Decimal.not_loses_of_exact h₃ hlost
  · exact Decimal.not_loses_of_exact h₄ hlost

/-- Of a lot with 27 places, an amount with 28 is transferred to oneself. What is left is rounded
to 28 digits, by half a unit of the 27th place; what comes back stands on the middle and goes to
the even digit below. The amount ends in a four where it ended in a five. -/
theorem self_transfer_loses :
    let owner : Account := ⟨List.replicate 20 1, rfl⟩
    let held : Holding := ⟨owner, TokenTable.beanId⟩
    let s : Selector := ⟨.standard, Selector.standardAccrualRate⟩
    let amount : Decimal := ⟨false, 10000000000000000000000000005, 27, by decide, by decide⟩
    let moved : Decimal := ⟨false, 10000000000000000000000000005, 28, by decide, by decide⟩
    let left : Decimal := ⟨false, 10000000000000000000000000004, 27, by decide, by decide⟩
    let b := (empty.run
      [ .load held [⟨⟨1⟩, amount, .ofUInt32 10, .ofUInt32 10, .ofUInt32 20⟩] ]).1
    let after := (b.transfer s owner owner TokenTable.beanId moved ⟨1⟩).1
    b.WellFormed ∧
      (∃ sel, (b.transfer s owner owner TokenTable.beanId moved ⟨1⟩).2 = .ok sel) ∧
      ((after.ledgerOrEmpty held).get? ⟨1⟩).map (·.rawAmount) = some left ∧
      ¬ after.Same b := by
  intro owner held s amount moved left b after
  refine ⟨wellFormed_empty.run _, Outcome.exists_ok_of_answer? (by decide +kernel),
    by decide +kernel, fun hsame => ?_⟩
  exact absurd (hsame.map_get? held ⟨1⟩) (by decide +kernel)

end Book

end StakeAccounting

import StakeAccounting.Proofs.Book.Step
import StakeAccounting.Proofs.Ledger.Epochs
import StakeAccounting.Proofs.Ledger.Pointwise

/-!
# Transfers, epoch by epoch

A transfer to another account does two things of which one is done elsewhere already and the
other is done nowhere else. It withdraws from the sender: the ledger is built anew from the
sender's lots and debited there, which is the same (`WellFormed.eq_of_ofLots`). And it credits
the recipient with what was taken, one deposit for each removal, in the order they were drawn
and into whatever lots the recipient has. The removals of a selection are from different lots,
so each credit meets the lot that the recipient had before, or none (`credited_of_adds`), and no
two of them meet.

Where amounts are on a grid, what is taken at an epoch is what is added there, so the two
holdings keep at every epoch what they have together (`transfer_epoch_by_epoch`).
-/

namespace StakeAccounting

/-- **A removal is credited**: the parts that were taken are added to the lot of its epoch, and
where there was none, they are the lot. -/
def LotDelta.Credited (d : LotDelta) : Option Lot → Option Lot → Prop
  | none, after =>
    after = some ⟨d.epoch, -d.amount, -d.baseValue, -d.baseStakeWeight, -d.yieldRate⟩
  | some l, after => ∃ m, after = some m ∧ m.epoch = l.epoch ∧
      l.rawAmount.plus (-d.amount) = .ok m.rawAmount ∧
      l.baseValue.plus (-d.baseValue) = .ok m.baseValue ∧
      l.stakeWeight.plus (-d.baseStakeWeight) = .ok m.stakeWeight ∧
      l.yieldRate.plus (-d.yieldRate) = .ok m.yieldRate

/-- A removal is credited by depositing its credit. -/
theorem LotDelta.credited_of_adds {d : LotDelta} {x y : Option Lot}
    (h : Ledger.Adds x d.asCredit y) : d.Credited x y := by
  cases h with
  | new => exact rfl
  | merged hm => exact ⟨_, rfl, Lot.merge_eq_ok hm⟩

namespace Ledger

variable {source target debited credited : Ledger} {ds : List LotDelta} {places : Nat}

/-- **What is taken from one ledger and credited to another** leaves them together what they had
at every epoch. -/
theorem Guarded.amountAt_move (hs : source.Guarded) (ht : target.Guarded) (hp : places ≤ 28)
    (hsgrid : source.OnGrid places) (htgrid : target.OnGrid places)
    (hds : ∀ d ∈ ds, d.amount.OnGrid places)
    (hroom : ∀ e, source.amountAt e + target.amountAt e < Decimal.gridLimit places)
    (hdebited : source.applyDeltas ds = .ok debited)
    (hcredited : target.appendAll (ds.map (·.asCredit)) = .ok credited) (e : Epoch) :
    debited.amountAt e + credited.amountAt e = source.amountAt e + target.amountAt e := by
  have hleft : ∀ e, debited.amountAt e = source.amountAt e + addedAt (ds.map (·.added)) e :=
    (hs.amountAt_applyDeltas hp hsgrid hds (fun e => by
      have := hroom e
      have := ht.amountAt_nonneg e
      omega) hdebited).1
  have hsguarded : debited.Guarded := hs.changed (c := .apply ds) hdebited
  have hadded := (ht.amountAt_appendAll hp htgrid (fun l hl => by
      obtain ⟨d, hd, rfl⟩ := List.mem_map.mp hl
      exact (hds d hd).neg) (fun e => by
      -- no more is credited at an epoch than there was to take
      have := hroom e
      have := hleft e
      have := hsguarded.amountAt_nonneg e
      rw [addedAt_asCredit]
      omega) hcredited).1 e
  rw [addedAt_asCredit] at hadded
  have := hleft e
  omega

end Ledger

namespace Book

variable {b : Book} {s : Selector} {sender recipient : Account} {token : TokenId}
  {amount : Decimal} {now : Epoch} {sel : Selection}

/-- **Transfers, epoch by epoch.** A transfer between different accounts of a well-formed book
that succeeds takes from the sender what a withdrawal would: the same selection, and the same
ledger afterwards. Every removal of the selection is credited to the recipient under its own
epoch, and the recipient's lots of other epochs stay. On a grid with room at each epoch for what
both have there, they have as much together afterwards, epoch by epoch. -/
theorem transfer_epoch_by_epoch (hb : b.WellFormed) (hne : sender ≠ recipient)
    (h : (b.transfer s sender recipient token amount now).2 = .ok sel) :
    let source : Holding := ⟨sender, token⟩
    let target : Holding := ⟨recipient, token⟩
    let after := (b.transfer s sender recipient token amount now).1
    ((b.withdraw s source amount now).2 = .ok sel ∧
      after.ledger? source = (b.withdraw s source amount now).1.ledger? source) ∧
    (∀ d ∈ sel.deltas, d.Credited ((b.ledgerOrEmpty target).get? d.epoch)
      ((after.ledgerOrEmpty target).get? d.epoch)) ∧
    (∀ e, e ∉ sel.epochs →
      (after.ledgerOrEmpty target).get? e = (b.ledgerOrEmpty target).get? e) ∧
    ∀ places, places ≤ 28 → (b.ledgerOrEmpty source).OnGrid places →
      (b.ledgerOrEmpty target).OnGrid places → amount.OnGrid places →
      (∀ e, (b.ledgerOrEmpty source).amountAt e + (b.ledgerOrEmpty target).amountAt e <
        Decimal.gridLimit places) →
      ∀ e, (after.ledgerOrEmpty source).amountAt e + (after.ledgerOrEmpty target).amountAt e =
        (b.ledgerOrEmpty source).amountAt e + (b.ledgerOrEmpty target).amountAt e := by
  intro source target after
  have henters : Enters b (.transfer s sender recipient token amount now) (.moved sel) after :=
    enters_of_transfer h
  generalize after = afterwards at henters ⊢
  cases henters with
  | transferSelf => exact absurd rfl hne
  | @transfer _ _ _ _ _ _ _ held debited credited _ hsel hheld hdebited hcredited =>
    obtain rfl : held = b.ledgerOrEmpty source := hb.eq_of_ofLots hheld
    have hother : target ≠ source := fun he => hne (congrArg Holding.account he).symm
    have hnodup := (Selector.exists_takes hsel).1
    have hwithdraw : b.withdraw s source amount now = (b.commit source debited, .ok sel) := by
      have hpreview : b.previewWithdrawal s source amount now = .ok sel := hsel
      unfold withdraw
      rw [hpreview]
      show b.enter ((b.ledgerOrEmpty source).applyDeltas sel.deltas >>= fun g => _) = _
      rw [hdebited]
      rfl
    have hview : ((b.commit source debited).commit target credited).ledgerOrEmpty =
        Function.update (Function.update b.ledgerOrEmpty source debited) target credited := by
      rw [ledgerOrEmpty_commit ((Ledger.token_appendAll hcredited).trans (hb.token target)),
        ledgerOrEmpty_commit ((Ledger.token_applyDeltas hdebited).trans (hb.token source))]
    rw [hview, Function.update_self, Function.update_of_ne hother.symm, Function.update_self,
      hwithdraw, ledger?_commit, Function.update_of_ne hother.symm]
    refine ⟨⟨rfl, rfl⟩, fun d hd => ?_, fun e he => ?_,
      fun places hp hsgrid htgrid hamount hroom => ?_⟩
    · exact LotDelta.credited_of_adds (Ledger.get?_appendCredits_of_mem hnodup hd hcredited)
    · exact Ledger.get?_appendCredits_of_not_mem he hcredited
    · exact (hb.ledger source).toGuarded.amountAt_move (hb.ledger target).toGuarded hp hsgrid
        htgrid (Selector.onGrid_select hsgrid hamount hsel) hroom hdebited hcredited

/-- Seven tokens are transferred from lots of epochs 24 and 77 to an account that holds one of
epoch 24: five go from the newer lot and are new there, and two from the older lot are added to
the one. -/
theorem transfer_epoch_by_epoch_seven :
    let payer : Account := ⟨List.replicate 20 1, rfl⟩
    let payee : Account := ⟨List.replicate 20 2, rfl⟩
    let s : Selector := ⟨.standard, Selector.standardAccrualRate⟩
    let source : Holding := ⟨payer, TokenTable.beanId⟩
    let target : Holding := ⟨payee, TokenTable.beanId⟩
    let b := (empty.run
      [ .deposit .standard .none source (.ofUInt32 10) ⟨24⟩,
        .deposit .standard .none source (.ofUInt32 5) ⟨77⟩,
        .deposit .standard .none target .one ⟨24⟩ ]).1
    let after := (b.transfer s payer payee TokenTable.beanId (.ofUInt32 7) ⟨100⟩).1
    ∃ sel, (b.transfer s payer payee TokenTable.beanId (.ofUInt32 7) ⟨100⟩).2 = .ok sel ∧
      sel.epochs = [⟨77⟩, ⟨24⟩] ∧
      after.ledger? source = (b.withdraw s source (.ofUInt32 7) ⟨100⟩).1.ledger? source ∧
      ∀ e, (after.ledgerOrEmpty source).amountAt e + (after.ledgerOrEmpty target).amountAt e =
        (b.ledgerOrEmpty source).amountAt e + (b.ledgerOrEmpty target).amountAt e := by
  intro payer payee s source target b after
  obtain ⟨sel, hsel⟩ :
      ∃ sel, (b.transfer s payer payee TokenTable.beanId (.ofUInt32 7) ⟨100⟩).2 = .ok sel :=
    Outcome.exists_ok_of_answer? (by decide +kernel)
  have hepochs :
      (·.epochs) <$> (b.transfer s payer payee TokenTable.beanId (.ofUInt32 7) ⟨100⟩).2 =
        .ok [⟨77⟩, ⟨24⟩] := by decide +kernel
  rw [hsel] at hepochs
  have hb : b.WellFormed := wellFormed_empty.run _
  obtain ⟨⟨-, hleft⟩, -, -, hsum⟩ := transfer_epoch_by_epoch hb (by decide) hsel
  have hgrid : ∀ k ∈ [source, target], (b.ledgerOrEmpty k).OnGrid 6 := by
    unfold Ledger.OnGrid
    decide +kernel
  refine ⟨sel, hsel, Except.ok.inj hepochs, hleft, hsum 6 (by decide) (hgrid source (by simp))
    (hgrid target (by simp)) (by decide +kernel) fun e => ?_⟩
  -- both have less than a million in all
  have hheld : (b.ledgerOrEmpty source).amount + (b.ledgerOrEmpty target).amount <
      Decimal.gridLimit 6 := by decide +kernel
  have hs := (hb.ledger source).toGuarded.amountAt_le e
  have ht := (hb.ledger target).toGuarded.amountAt_le e
  exact Int.lt_of_le_of_lt (Int.add_le_add hs ht) hheld

end Book

end StakeAccounting

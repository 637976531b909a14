import StakeAccounting.Proofs.Book.Step
import StakeAccounting.Proofs.Selection.Range

/-!
# Solvent withdrawals

A withdrawal is **solvent** where the account has what is asked for and nothing else
stands in its way: the lots are not ahead, nothing accrues below zero, the amounts are on
a grid with room, and no sum or product that is formed on the way is out of range
(`Book.Solvent`). All of this is said of the stored lots, the token, the accrual rate, the
epoch and the request, and not of what comes of the withdrawal. Such a withdrawal has a
selection (`Solvent.exists_preview`), and taking it from the lots cannot leave the range any
more. So it should go through, and almost always does: amount, base value and yield rate are
no obstacle, since what is taken of them is a rounded share of what there is.

The stake weight of a part of a lot is not a share of what the lot stores. It is granted
anew for the base value that is taken, and so rounded by itself. After some withdrawals
that were rounded down the lot may store less than the next one takes, and then the
withdrawal is refused, with the amount in the account (`solvent_withdrawal_refused`). By
`withdraw_malformed_iff` this is the only way: a solvent withdrawal is refused for a
malformed lot exactly where a lot stores less stake weight than the token grants for the
part that is taken from it.
-/

namespace StakeAccounting

namespace Book

/-- **A solvent withdrawal.** -/
structure Solvent (b : Book) (s : Selector) (h : Holding) (amount : Decimal) (now : Epoch) :
    Prop where
  /-- Nothing accrues below zero. -/
  rate : .zero ≤ s.accrualRate
  /-- Something is asked for. -/
  pos : .zero < amount
  /-- The balance covers it. -/
  covered : ∃ held, b.balance h = .ok held ∧ amount ≤ held
  /-- No lot is ahead. -/
  passed : ∀ l ∈ b.lots h, l.epoch ≤ now
  /-- The amounts are on a grid that has room for them. -/
  grid : ∃ places, places ≤ 28 ∧ amount.OnGrid places ∧
    (b.ledgerOrEmpty h).OnGrid places ∧ (b.ledgerOrEmpty h).amount < Decimal.gridLimit places
  /-- No sum or product that is formed is out of range: neither a share of a lot, nor what accrued
  on it, nor a sum of what is drawn, as the lots are drawn newest first. -/
  inRange : ∀ t, s.table.get h.token = .ok t →
    (s.drawTrace t now amount .zero (b.lots h).reverse).InRange

variable {b : Book} {s : Selector} {h : Holding} {amount : Decimal} {now : Epoch} {t : Token}

/-- A withdrawal fails where its selection does. -/
theorem withdraw_of_preview_error {failure : Failure}
    (hfail : b.previewWithdrawal s h amount now = .error failure) :
    (b.withdraw s h amount now).2 = .error failure := by
  unfold withdraw
  rw [hfail]
  rfl

/-- A withdrawal of a token that is not listed is refused for that. -/
theorem previewWithdrawal_of_unknown (b : Book) (now : Epoch) {failure : Failure}
    (hpos : .zero < amount) (ht : s.table.get h.token = .error failure) :
    b.previewWithdrawal s h amount now = .error failure ∧
      failure = .refused (.unknownToken h.token) := by
  have hasked : ¬ amount ≤ .zero := Int.not_le.mpr hpos
  constructor
  · unfold previewWithdrawal Selector.selectFor Selector.select
    rw [if_neg hasked, ht]
    rfl
  · unfold TokenTable.get at ht
    cases hfind : s.table.find? h.token with
    | none =>
      rw [hfind] at ht
      cases ht
      rfl
    | some t =>
      rw [hfind] at ht
      cases ht

/-- **A selection is there** for a solvent withdrawal of a token that is listed: no check refuses
it, and nothing it works out is out of range. -/
theorem Solvent.exists_preview (hs : b.Solvent s h amount now) (hb : b.WellFormed)
    (ht : s.table.get h.token = .ok t) :
    ∃ sel, b.previewWithdrawal s h amount now = .ok sel := by
  obtain ⟨places, hp, -, hgrid, hlt⟩ := hs.grid
  obtain ⟨held, hheld, hle⟩ := hs.covered
  have hg := hb.ledger h
  obtain ⟨c, hc, hq⟩ := hg.toGuarded.exists_totalAmount hp hgrid hlt
  rw [balance_eq, hc] at hheld
  cases hheld
  rw [Decimal.le_def] at hle
  have hnow : ∀ l ∈ (b.ledgerOrEmpty h).lots, ¬ now < l.epoch := fun l hl => by
    have := hs.passed l hl
    rw [Epoch.le_def] at this
    rw [Epoch.lt_def]
    omega
  exact (hg.exists_select_iff hp hgrid hlt hnow hs.pos (by omega) ht).mpr (hs.inRange t ht)

/-- A withdrawal with a selection succeeds where its removals are taken, and fails as they
do. -/
theorem withdraw_of_preview_ok {sel : Selection}
    (hsel : b.previewWithdrawal s h amount now = .ok sel) :
    (b.withdraw s h amount now).2 =
      ((b.ledgerOrEmpty h).applyDeltas sel.deltas).map fun _ => sel := by
  unfold withdraw
  rw [hsel]
  show (b.enter ((b.ledgerOrEmpty h).applyDeltas sel.deltas >>= fun g =>
    pure (b.commit h g, sel))).2 = _
  cases (b.ledgerOrEmpty h).applyDeltas sel.deltas with
  | error failure => rfl
  | ok g => rfl

/-- **What comes of a solvent withdrawal**: it succeeds if every removal of its selection
is covered by the stake weight its lot stores, and is refused for the stake weight else. -/
theorem Solvent.withdraw_cases (hs : b.Solvent s h amount now) (hb : b.WellFormed)
    (ht : s.table.get h.token = .ok t) :
    ∃ sel, b.previewWithdrawal s h amount now = .ok sel ∧
      ((∀ d ∈ sel.deltas, (b.ledgerOrEmpty h).Covers d) ∧
          (b.withdraw s h amount now).2 = .ok sel ∨
        (∃ d ∈ sel.deltas, ¬ (b.ledgerOrEmpty h).Covers d) ∧ ∃ e rest,
          (b.withdraw s h amount now).2 =
            Outcome.refuseLot e (.shareOverdrawn .stakeWeight rest)) := by
  obtain ⟨sel, hsel⟩ := hs.exists_preview hb ht
  have hg := hb.ledger h
  have hnodup := (Selector.exists_takes hsel).1
  have hall := hg.removals_of_select hs.rate hsel
  refine ⟨sel, hsel, ?_⟩
  rw [withdraw_of_preview_ok hsel]
  rcases Ledger.applyDeltas_of_within hnodup hall with ⟨hcovers, g, htaken⟩ | ⟨hover, e, rest, hno⟩
  · rw [htaken]
    exact Or.inl ⟨hcovers, rfl⟩
  · rw [hno]
    exact Or.inr ⟨hover, e, rest, rfl⟩

/-- What is not covered is a proper part of a lot, for which the token grants more stake weight
than the lot stores. -/
theorem WellFormed.of_not_covers (hb : b.WellFormed) {sel : Selection}
    (hsel : b.previewWithdrawal s h amount now = .ok sel) {d : LotDelta} (hd : d ∈ sel.deltas)
    (hover : ¬ (b.ledgerOrEmpty h).Covers d) :
    ∃ t l, s.table.get h.token = .ok t ∧ (b.ledgerOrEmpty h).get? d.epoch = some l ∧
      -d.amount < l.rawAmount ∧ t.stakePerBase.mul? (-d.baseValue) = some (-d.baseStakeWeight) ∧
      l.stakeWeight < -d.baseStakeWeight := by
  obtain ⟨l, hl, hlt⟩ := Ledger.not_covers_iff.mp hover
  obtain ⟨t, ht, htakes⟩ := (hb.ledger h).takes_of_select hsel
  obtain ⟨x, hx, -, htake⟩ := htakes d hd
  rw [hl] at hx
  cases hx
  obtain ⟨hpart, hgranted⟩ := htake.of_overdrawn hlt
  exact ⟨t, l, ht, hl, hpart, hgranted, hlt⟩

/-- **When a solvent withdrawal is refused for a malformed lot**: exactly where its selection
takes a proper part of a lot, for which the token grants more stake weight than the lot
stores. What would go below zero then is the stake weight, and never the amount or the
yield rate. -/
theorem withdraw_malformed_iff (rs : List Request)
    (hs : (empty.run rs).1.Solvent s h amount now) :
    ((∃ e fault, ((empty.run rs).1.withdraw s h amount now).2 = Outcome.refuseLot e fault) ↔
      ∃ sel, (empty.run rs).1.previewWithdrawal s h amount now = .ok sel ∧
        ∃ d ∈ sel.deltas, ∃ t l, s.table.get h.token = .ok t ∧
          ((empty.run rs).1.ledgerOrEmpty h).get? d.epoch = some l ∧ -d.amount < l.rawAmount ∧
          t.stakePerBase.mul? (-d.baseValue) = some (-d.baseStakeWeight) ∧
          l.stakeWeight < -d.baseStakeWeight) ∧
      ∀ e fault, ((empty.run rs).1.withdraw s h amount now).2 = Outcome.refuseLot e fault →
        ∃ rest, fault = .shareOverdrawn .stakeWeight rest := by
  have hb := wellFormed_empty.run rs
  cases ht : s.table.get h.token with
  | error failure =>
    -- a token that is not listed is refused before any lot is looked at
    obtain ⟨hpreview, hunknown⟩ :=
      previewWithdrawal_of_unknown (empty.run rs).1 now hs.pos ht
    rw [withdraw_of_preview_error hpreview, hunknown, hpreview]
    refine ⟨⟨fun ⟨e, fault, he⟩ => ?_, fun ⟨sel, hsel, _⟩ => ?_⟩, fun e fault he => ?_⟩
    · cases he
    · cases hsel
    · cases he
  | ok t =>
    obtain ⟨sel, hsel, ⟨hcovers, hok⟩ | ⟨⟨d, hd, hover⟩, e, rest, hno⟩⟩ := hs.withdraw_cases hb ht
    · rw [hok]
      refine ⟨⟨fun ⟨e, fault, he⟩ => ?_, ?_⟩, fun e fault he => ?_⟩
      · cases he
      · rintro ⟨sel', hsel', d, hd, -, l, -, hl, -, -, hlt⟩
        rw [hsel] at hsel'
        cases hsel'
        exact absurd (hcovers d hd) (Ledger.not_covers_iff.mpr ⟨l, hl, hlt⟩)
      · cases he
    · rw [hno]
      refine ⟨iff_of_true ⟨e, _, rfl⟩ ⟨sel, hsel, d, hd, ?_⟩, fun e' fault he => ?_⟩
      · rw [← ht]
        exact hb.of_not_covers hsel hd hover
      · cases he
        exact ⟨rest, rfl⟩

/-! ## A solvent withdrawal that is refused -/

/-- A pooled token that grants one and a half units of stake weight per unit of base
value. -/
def weighted : Token :=
  ⟨⟨"0xc5"⟩, "WEIGHTED", ⟨false, 15, 1, by decide, by decide⟩, .ofUInt32 2, 6, .pooled⟩

/-- The table of this one token. -/
def weightedTable : TokenTable where
  entries := [weighted]
  valid := by decide +kernel
  distinct := by decide
  inhabited := by simp

theorem get_weighted : weightedTable.get weighted.id = .ok weighted := by decide +kernel

/-- The holding of the token by one account. -/
def weightedHolding : Holding := ⟨.null, weighted.id⟩

/-- The selector with this table and the accrual rate of the protocol. -/
def weightedSelector : Selector := ⟨weightedTable, Selector.standardAccrualRate⟩

/-- **Two thirds withdrawn**: three tokens are deposited, worth one unit of base value, and
two of them withdrawn one by one. A third of the unit has no decimal value, and the stake
weight that is left for it falls short by one in the last place. -/
def twoThirdsWithdrawn : List Request :=
  [ .deposit weightedTable (.flat .one) weightedHolding (.ofUInt32 3) ⟨1⟩,
    .withdraw weightedSelector weightedHolding .one ⟨1⟩,
    .withdraw weightedSelector weightedHolding .one ⟨1⟩ ]

/-- One token but for the least decimal there is. -/
def almostOne : Decimal := ⟨false, 9999999999999999999999999999, 28, by decide, by decide⟩

theorem withdraw_almostOne : ((empty.run twoThirdsWithdrawn).1.withdraw weightedSelector
    weightedHolding almostOne ⟨1⟩).2 = Outcome.refuseLot ⟨1⟩
      (.shareOverdrawn .stakeWeight ⟨true, 1, 28, by decide, by decide⟩) := by
  decide +kernel

theorem solvent_almostOne : (empty.run twoThirdsWithdrawn).1.Solvent weightedSelector
    weightedHolding almostOne ⟨1⟩ where
  rate := by decide
  pos := by decide
  covered := ⟨.one, by decide +kernel, by decide⟩
  passed := by decide +kernel
  grid := by
    refine ⟨28, Nat.le_refl 28, ?_, fun l _ => ?_, ?_⟩
    · exact Int.one_dvd _
    · exact Int.one_dvd _
    · decide +kernel
  inRange := by
    intro t ht
    obtain rfl := Except.ok.inj (get_weighted.symm.trans ht)
    decide +kernel

/-- **A solvent withdrawal is refused**: one token is left, and almost one asked for. -/
theorem solvent_withdrawal_refused :
    (empty.run twoThirdsWithdrawn).1.Solvent weightedSelector weightedHolding almostOne ⟨1⟩ ∧
      ∃ e fault, ((empty.run twoThirdsWithdrawn).1.withdraw weightedSelector weightedHolding
        almostOne ⟨1⟩).2 = Outcome.refuseLot e fault :=
  ⟨solvent_almostOne, ⟨1⟩, _, withdraw_almostOne⟩

/-- The refusal comes of a removal that takes more stake weight than its lot stores. -/
theorem withdraw_malformed_iff_almostOne :
    ∃ sel, (empty.run twoThirdsWithdrawn).1.previewWithdrawal weightedSelector weightedHolding
        almostOne ⟨1⟩ = .ok sel ∧
      ∃ d ∈ sel.deltas, ∃ t l, weightedTable.get weighted.id = .ok t ∧
        ((empty.run twoThirdsWithdrawn).1.ledgerOrEmpty weightedHolding).get? d.epoch = some l ∧
        -d.amount < l.rawAmount ∧
        t.stakePerBase.mul? (-d.baseValue) = some (-d.baseStakeWeight) ∧
        l.stakeWeight < -d.baseStakeWeight :=
  (withdraw_malformed_iff twoThirdsWithdrawn solvent_almostOne).1.mp
    ⟨⟨1⟩, _, withdraw_almostOne⟩

end Book

end StakeAccounting

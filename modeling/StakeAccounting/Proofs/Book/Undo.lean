import StakeAccounting.Proofs.Book.Order
import StakeAccounting.Proofs.Decimal.Saturation
import StakeAccounting.Proofs.Selection.Fit

/-!
# A deposit that is undone

An amount that is deposited and withdrawn in one epoch leaves nothing behind, if the holding has no
other lot of that epoch or a later one. The lot of the deposit is the newest then, so it is put
behind the others, and it is the first that the withdrawal draws on. The request is its amount, so
it is drawn whole and gives up what it stores; no epoch has passed, so nothing accrued, whatever
the rate is; and the lot is dropped. No part of another lot is computed anew, and a ledger that was
opened for the lot is closed again. The ledgers are those from before then, and in a book in order
there is nothing else to see (`Book.Sorted.ext`).

The one place where a rounded number counts is the check of the balance. The total of all lots is
rounded, and may be less than the exact one; but it is not less than the lot that is added last
(`Decimal.le_sum_concat`), as rounding keeps the order. So the request never looks uncovered, and
`Book.withdraw_deposit` needs no assumption on the other lots, but that the total is in range.
-/

namespace StakeAccounting

/-- No epoch has passed since the current one. -/
theorem Epoch.elapsedSince_self (e : Epoch) : e.elapsedSince e = 0 := by
  rw [elapsedSince, elapsedSince?, if_pos (le_def e e |>.mpr (Nat.le_refl _)), Option.getD_some,
    UInt32.sub_self]

namespace Decimal

/-- A sum of numbers that are not negative is not negative, though it may be rounded. -/
theorem sum_nonneg {as : List Decimal} {c : Decimal} (has : ∀ a ∈ as, 0 ≤ a.quanta)
    (h : sum as = .ok c) : 0 ≤ c.quanta :=
  Outcome.foldlM_keeps (P := fun d => 0 ≤ d.quanta) (fun a ha b next hb hnext => by
    have hsign := sign_of_plus hnext
    have := has a ha
    omega) (Int.le_refl 0) h

/-- **A sum is no less than its last summand**, if no number in it is negative. -/
theorem le_sum_concat {as : List Decimal} {a c : Decimal} (has : ∀ b ∈ as, 0 ≤ b.quanta)
    (h : sum (as ++ [a]) = .ok c) : a ≤ c := by
  rw [sum, List.foldlM_append] at h
  obtain ⟨others, hothers, h⟩ := Outcome.bind_eq_ok.mp h
  obtain ⟨d, hd, h⟩ := Outcome.bind_eq_ok.mp h
  cases h
  exact le_plus (sum_nonneg has hothers) hd

end Decimal

namespace LotDelta

variable {l : Lot} {d : LotDelta}

/-- A removal that empties a valid lot is within it. -/
theorem Empties.within (hd : d.Empties l) (hl : l.Valid) : d.Within l := by
  obtain ⟨hraw, -, -, -⟩ := l.valid_iff.mp hl
  constructor
  · exact hd.epoch_eq
  all_goals
    simp only [hd.amount_eq, hd.baseValue_eq, hd.yieldRate_eq, hd.baseStakeWeight_eq,
      Decimal.quanta_neg]
    omega

/-- A removal that empties a valid lot is one, if it gives nothing that accrued. -/
theorem Empties.isRemoval (hd : d.Empties l) (hl : l.Valid)
    (haccrued : d.accruedStakeWeight ≤ .zero) : d.isRemoval = true := by
  obtain ⟨hraw, hbase, hstake, hyield⟩ := l.valid_iff.mp hl
  rw [Decimal.le_def, Decimal.quanta_zero] at haccrued
  simp only [LotDelta.isRemoval, Bool.and_eq_true, Decimal.takesAway_iff, Decimal.le_def,
    Decimal.quanta_zero, hd.amount_eq, hd.baseValue_eq, hd.yieldRate_eq, hd.baseStakeWeight_eq,
    Decimal.quanta_neg]
  omega

end LotDelta

namespace Ledger

variable {g : Ledger} {l : Lot} {d : LotDelta}

/-- **A lot that is emptied is erased.** -/
theorem remove_of_empties (hl : g.get? d.epoch = some l) (hvalid : l.Valid) (hd : d.Empties l)
    (hremoval : d.isRemoval = true) : g.remove d.epoch d = .ok (g.erase d.epoch) := by
  have hcovers := covers_of_empties hl hd
  obtain ⟨-, after, hafter⟩ | ⟨hover, -⟩ :=
    remove_of_within hl hvalid (hd.within hvalid) hremoval
  · obtain ⟨-, x, left, hx, hleft, hepoch, hsettle⟩ := remove_cases hafter
    rw [hl] at hx
    cases hx
    -- nothing is left of the amount
    have hamount := Decimal.sign_of_plus (Lot.merge_eq_ok hleft).2.1
    rw [LotDelta.added_rawAmount, hd.amount_eq, Decimal.quanta_neg] at hamount
    obtain ⟨-, rfl⟩ | ⟨hpos, -⟩ := settle_cases hsettle
    · rw [hafter, hepoch]
    · omega
  · exact absurd hcovers hover

end Ledger

namespace Selector

variable {s : Selector} {t : Token} {ls : List Lot} {l : Lot}

/-- **The newest lot is arranged first**, newest first. -/
theorem exists_arrange_newest (hl : l ∈ ls) (hnodup : (ls.map (·.epoch)).Nodup)
    (hnewest : ∀ x ∈ ls, ¬ l.epoch < x.epoch) :
    ∃ rest, SelectionOrder.newestFirst.arrange ls = .ok (l :: rest) := by
  obtain ⟨ordered, hordered⟩ : ∃ ordered,
      SelectionOrder.newestFirst.arrange ls = .ok ordered := ⟨_, rfl⟩
  have hperm := SelectionOrder.perm_arrange hordered
  have hpairs := SelectionOrder.pairwise_arrange hnodup hordered
  rw [hordered]
  cases ordered with
  | nil => exact absurd (hperm.mem_iff.mpr hl) List.not_mem_nil
  | cons x rest =>
    obtain rfl | hrest := List.mem_cons.mp (hperm.mem_iff.mpr hl)
    · exact ⟨rest, rfl⟩
    · exact absurd ((List.pairwise_cons.mp hpairs).1 l hrest)
        (hnewest x (hperm.mem_iff.mp List.mem_cons_self))

/-- **A lot of the current epoch is split whole** without fail: nothing accrued on it yet, at
whatever rate. -/
theorem exists_split_now (s : Selector) (t : Token) (l : Lot) :
    ∃ d, s.split t l.epoch l l.rawAmount = .ok d ∧ d.Empties l ∧
      d.accruedStakeWeight.Same .zero ∧ d.stakeWeight.Same (-l.stakeWeight) := by
  have hgrown : l.yieldRate.mul? (.ofUInt32 (l.epoch.elapsedSince l.epoch)) = some .zero := by
    rw [Epoch.elapsedSince_self]
    exact Decimal.mul?_of_right_zero rfl
  have haccrued : Decimal.zero.mul? s.accrualRate = some .zero := Decimal.mul?_of_left_zero rfl
  obtain ⟨weight, hweight, hq⟩ : ∃ weight, l.stakeWeight.add? .zero = some weight ∧
      weight.quanta = l.stakeWeight.quanta := by
    refine Decimal.exists_add? ?_
    rw [Decimal.quanta_zero, Int.add_zero]
    exact Decimal.nearest?_quanta _
  have hsplit : s.split t l.epoch l l.rawAmount = .ok ⟨l.epoch, -l.rawAmount, -l.baseValue,
      -l.yieldRate, -l.stakeWeight, -.zero, -weight⟩ := by
    have hshare : shareOf t l l.rawAmount = .ok (l.baseValue, l.yieldRate, l.stakeWeight) := by
      rw [shareOf, if_pos (show l.rawAmount.Same l.rawAmount from rfl)]
      rfl
    refine Outcome.bind_eq_ok.mpr ⟨_, hshare, ?_⟩
    simp only [Outcome.bind_eq_ok, inSplit_eq_ok]
    exact ⟨_, hgrown, _, haccrued, _, hweight, rfl⟩
  refine ⟨_, hsplit, empties_of_split hsplit, rfl, ?_⟩
  rw [Decimal.same_def, Decimal.quanta_neg, Decimal.quanta_neg, hq]

/-- **Drawing the amount of the first lot** draws no other. -/
theorem draw_of_split {d : LotDelta} {rest : List Lot} {now : Epoch}
    (hd : s.split t now l l.rawAmount = .ok d) :
    s.draw t now l.rawAmount .zero (l :: rest) =
      .ok (⟨d.amount, d.baseValue, d.yieldRate, d.stakeWeight⟩, [d]) := by
  obtain ⟨left, hleft, hq⟩ : ∃ left, l.rawAmount.sub? l.rawAmount = some left ∧
      left.quanta = 0 := by
    refine Decimal.exists_sub? ?_
    rw [Int.sub_self, Int.zero_mul, Decimal.nearest?_zero]
  have hmin : l.rawAmount.min l.rawAmount = l.rawAmount := by
    unfold Decimal.min
    split <;> rfl
  have hadd : DeltaTotals.zero.add d =
      .ok ⟨d.amount, d.baseValue, d.yieldRate, d.stakeWeight⟩ := by
    simp only [DeltaTotals.add, DeltaTotals.zero, Decimal.plus, Decimal.zero_add?,
      Outcome.orOverflow_some]
    rfl
  rw [draw_cons_eq_ok, hmin]
  exact ⟨d, _, left, hd, hadd, Decimal.minus_eq_ok.mpr hleft,
    Or.inl ⟨(Decimal.isZero_iff left).mpr hq, rfl, rfl⟩⟩

/-- **The newest lot is selected whole**, and no other, by a request of its amount in its own
epoch. The total of the lots is rounded, but covers the last of them. -/
theorem select_newest {id : TokenId} {older : List Lot} {total : Decimal} {d : LotDelta}
    (ht : s.table.get id = .ok t) (hls : Snapshot l.epoch (older ++ [l]))
    (htotal : Decimal.sum ((older ++ [l]).map (·.rawAmount)) = .ok total)
    (hd : s.split t l.epoch l l.rawAmount = .ok d) :
    s.select .newestFirst id l.rawAmount (older ++ [l]) l.epoch =
      .ok ⟨id, l.rawAmount, ⟨d.amount, d.baseValue, d.yieldRate, d.stakeWeight⟩, [d]⟩ := by
  have hl : l ∈ older ++ [l] := List.mem_append_right older (List.mem_singleton_self l)
  have hcovered : ¬ total < l.rawAmount := by
    rw [List.map_append, List.map_singleton] at htotal
    refine Decimal.not_lt.mpr (Decimal.le_sum_concat (fun a ha => ?_) htotal)
    obtain ⟨x, hx, rfl⟩ := List.mem_map.mp ha
    exact Int.le_of_lt (x.valid_iff.mp (hls.valid x (List.mem_append_left [l] hx))).1
  obtain ⟨rest, hordered⟩ := exists_arrange_newest hl hls.nodup hls.notAhead
  rw [select_of_snapshot (hls.valid l hl).1 ht hls (availableAmount_of_sum htotal),
    if_neg hcovered, hordered]
  exact Outcome.bind_eq_ok.mpr ⟨_, rfl, Outcome.bind_eq_ok.mpr ⟨_, draw_of_split hd, rfl⟩⟩

end Selector

/-- **The newest lot of a ledger is taken back** by a request of its amount, in its own epoch. -/
theorem Ledger.WellFormed.undo_put {g : Ledger} {s : Selector} {t : Token} {id : TokenId} {l : Lot}
    {total : Decimal} (hg : g.WellFormed) (hl : l.Valid) (hnew : ∀ x ∈ g.lots, x.epoch < l.epoch)
    (ht : s.table.get id = .ok t) (htotal : (g.put l).totalAmount = .ok total) :
    ∃ d, d.Empties l ∧ d.accruedStakeWeight.Same .zero ∧ d.stakeWeight.Same (-l.stakeWeight) ∧
      s.select .newestFirst id l.rawAmount (g.put l).lots l.epoch =
        .ok ⟨id, l.rawAmount, ⟨d.amount, d.baseValue, d.yieldRate, d.stakeWeight⟩, [d]⟩ ∧
      (g.put l).applyDeltas [d] = .ok g := by
  have hnone : g.get? l.epoch = none := get?_of_forall_lt hnew
  have hput : (g.put l).WellFormed := hg.append (append_of_none hl hnone)
  have hls : Selector.Snapshot l.epoch (g.put l).lots := by
    refine ⟨hput.valid, fun x hx => ?_, hput.sorted.nodup_epochs⟩
    obtain rfl | hx := mem_put hx
    · exact Epoch.lt_irrefl _
    · exact fun hlt => Epoch.lt_irrefl _ (Epoch.lt_trans hlt (hnew x hx))
  obtain ⟨d, hsplit, hempties, haccrued, hweight⟩ := Selector.exists_split_now s t l
  have hsel : s.select .newestFirst id l.rawAmount (g.put l).lots l.epoch =
      .ok ⟨id, l.rawAmount, ⟨d.amount, d.baseValue, d.yieldRate, d.stakeWeight⟩, [d]⟩ := by
    rw [totalAmount, lots_put_of_newer hnew] at htotal
    rw [lots_put_of_newer hnew] at hls ⊢
    exact Selector.select_newest ht hls htotal hsplit
  have htaken : (g.put l).get? d.epoch = some l := by rw [hempties.epoch_eq, get?_put_self]
  have hremoval := hempties.isRemoval hl (Int.le_of_eq haccrued)
  have hremove : (g.put l).remove d.epoch d = .ok g := by
    rw [remove_of_empties htaken hl hempties hremoval, hempties.epoch_eq, erase_put_of_none hnone]
  exact ⟨d, hempties, haccrued, hweight, hsel, Outcome.bind_eq_ok.mpr ⟨g, hremove, rfl⟩⟩

namespace Book

variable {b : Book} {table : TokenTable} {feed : PriceFeed} {h : Holding} {amount total : Decimal}
  {now : Epoch} {l : Lot}

/-- **A deposit that succeeds** adds its lot to the ledger of the holding, and puts that. -/
theorem deposit_eq_ok (hdeposit : (b.deposit table feed h amount now).2 = .ok l) :
    Deposit.newLot table feed h.token amount now = .ok l ∧ ∃ g,
      (b.ledgerOrEmpty h).append l = .ok g ∧ (b.deposit table feed h amount now).1 = b.put h g := by
  have henters : Enters b (.deposit table feed h amount now) (.deposited l)
      (b.deposit table feed h amount now).1 :=
    enters_of_ok (Outcome.map_eq_ok.mpr ⟨l, hdeposit, rfl⟩)
  generalize (b.deposit table feed h amount now).1 = after at henters
  cases henters with
  | deposit hl hg => exact ⟨hl, _, hg, rfl⟩

/-- **A withdrawal succeeds** where its selection is made and can be taken. -/
theorem withdraw_of_select {s : Selector} {sel : Selection} {after : Ledger}
    (hsel : s.selectFor .withdrawal h.token amount (b.lots h) now = .ok sel)
    (hafter : (b.ledgerOrEmpty h).applyDeltas sel.deltas = .ok after) :
    b.withdraw s h amount now = (b.commit h after, .ok sel) := by
  unfold withdraw previewWithdrawal
  rw [hsel]
  show b.enter ((b.ledgerOrEmpty h).applyDeltas sel.deltas >>= fun g => _) = _
  rw [hafter]
  rfl

/-- The ledger in view is well-formed, if the one that is stored is. -/
theorem wellFormed_ledgerOrEmpty (hstored : ∀ g, b.ledger? h = some g → g.WellFormed) :
    (b.ledgerOrEmpty h).WellFormed := by
  unfold ledgerOrEmpty
  cases hg : b.ledger? h with
  | none => exact Ledger.wellFormed_empty h.token
  | some g => exact hstored g hg

/-- What is kept of the ledger in view is the ledger that is stored, if that has lots. -/
theorem kept_ledgerOrEmpty (hstored : ∀ g, b.ledger? h = some g → g.lots ≠ []) :
    (b.ledgerOrEmpty h).kept = b.ledger? h := by
  unfold ledgerOrEmpty Ledger.kept
  cases hg : b.ledger? h with
  | none => rfl
  | some g =>
    rw [Option.getD_some, if_neg]
    exact fun hempty => hstored g hg (List.isEmpty_iff.mp hempty)

/-- **A withdrawal undoes a deposit** of the same epoch. Let the ledger of the holding, if there is
one, have lots, all of them valid, and none of the epoch of the deposit or a later one. If the
deposit succeeds, and the total of the lots is in range behind it, then the amount can be withdrawn
at whatever rate stake weight accrues. The one removal takes exactly the lot of the deposit, with
nothing accrued, and every ledger is again what it was: the same lots with the same parts, and no
ledger where there was none. A book in order is the same book. -/
theorem withdraw_deposit (hstored : ∀ g, b.ledger? h = some g → g.lots ≠ [] ∧ g.WellFormed)
    (hnew : ∀ x ∈ b.lots h, x.epoch < now)
    (hdeposit : (b.deposit table feed h amount now).2 = .ok l)
    (htotal : (b.deposit table feed h amount now).1.balance h = .ok total) (rate : Decimal) :
    let undone := (b.deposit table feed h amount now).1.withdraw ⟨table, rate⟩ h amount now
    (∃ d, d.Empties l ∧ d.accruedStakeWeight.Same .zero ∧ d.stakeWeight.Same (-l.stakeWeight) ∧
      undone.2 = .ok ⟨h.token, amount,
        ⟨d.amount, d.baseValue, d.yieldRate, d.stakeWeight⟩, [d]⟩) ∧
      undone.1.ledger? = b.ledger? ∧ (b.Sorted → undone.1 = b) := by
  intro undone
  obtain ⟨hmade, g, hg, hbook⟩ := deposit_eq_ok hdeposit
  have hl : l.Valid := Deposit.valid_newLot hmade
  obtain ⟨-, t, _, _, _, ht, -, -, -, hparts⟩ := Deposit.newLot_eq_ok hmade
  obtain ⟨rfl, rfl⟩ : l.epoch = now ∧ l.rawAmount = amount := by
    rw [hparts]
    exact ⟨rfl, rfl⟩
  rw [Ledger.append_of_none hl (Ledger.get?_of_forall_lt hnew)] at hg
  cases hg
  have hview : (b.put h ((b.ledgerOrEmpty h).put l)).ledgerOrEmpty h =
      (b.ledgerOrEmpty h).put l := by rw [ledgerOrEmpty_put, Function.update_self]
  rw [hbook, balance_eq, hview] at htotal
  obtain ⟨d, hempties, haccrued, hweight, hsel, happlied⟩ :=
    (wellFormed_ledgerOrEmpty fun g hg => (hstored g hg).2).undo_put (s := ⟨table, rate⟩)
      hl hnew ht htotal
  have hundone : undone = ((b.put h ((b.ledgerOrEmpty h).put l)).commit h (b.ledgerOrEmpty h),
      .ok ⟨h.token, l.rawAmount, ⟨d.amount, d.baseValue, d.yieldRate, d.stakeWeight⟩, [d]⟩) := by
    show (b.deposit table feed h l.rawAmount l.epoch).1.withdraw _ h l.rawAmount l.epoch = _
    rw [hbook]
    refine withdraw_of_select ?_ (by rw [hview]; exact happlied)
    rw [lots, hview]
    exact hsel
  have hledgers : undone.1.ledger? = b.ledger? := by
    rw [hundone, ledger?_commit, ledger?_put, Function.update_idem,
      kept_ledgerOrEmpty fun g hg => (hstored g hg).1, Function.update_eq_self]
  refine ⟨⟨d, hempties, haccrued, hweight, by rw [hundone]⟩, hledgers, fun hsorted => ?_⟩
  rw [hundone] at hledgers ⊢
  exact ((hsorted.put h _).commit h _).ext hsorted hledgers

/-- Two and a half tokens are deposited and withdrawn while accrual runs below zero: once behind an
older lot, and once where a ledger is opened for them. Both times the book is what it was. -/
theorem withdraw_deposit_both :
    let owner : Account := ⟨List.replicate 20 1, rfl⟩
    let held : Holding := ⟨owner, TokenTable.beanId⟩
    let pooled : Holding := ⟨owner, TokenTable.beanPoolId⟩
    let b := (empty.run [ .deposit .standard .none held (.ofUInt32 3) ⟨1⟩ ]).1
    let deposited : Holding → Book × Outcome Lot := fun h =>
      b.deposit .standard (.flat .one) h (.percent 250) ⟨7⟩
    let undone : Holding → Book := fun h =>
      ((deposited h).1.withdraw ⟨.standard, -.one⟩ h (.percent 250) ⟨7⟩).1
    (deposited held).1 ≠ b ∧ undone held = b ∧
      b.ledger? pooled = none ∧ (deposited pooled).1 ≠ b ∧ undone pooled = b := by
  intro owner held pooled b deposited undone
  have hundone : ∀ h, (∀ g ∈ b.ledger? h, g.lots ≠ []) → (∀ x ∈ b.lots h, x.epoch < ⟨7⟩) →
      (deposited h).2.answer?.isSome = true → ((deposited h).1.balance h).answer?.isSome = true →
      undone h = b := by
    intro h hlots hnew hdeposit htotal
    obtain ⟨l, hl⟩ := Outcome.exists_ok_of_answer? hdeposit
    obtain ⟨total, htotal⟩ := Outcome.exists_ok_of_answer? htotal
    have hstored : ∀ g, b.ledger? h = some g → g.lots ≠ [] ∧ g.WellFormed := fun g hg =>
      ⟨hlots g hg, ((wellFormed_empty.run _).of_some hg).2⟩
    obtain ⟨-, -, hsame⟩ := @withdraw_deposit b .standard (.flat .one) h (.percent 250) total ⟨7⟩ l
      hstored hnew hl htotal (-.one)
    exact hsame (sorted_run _)
  refine ⟨by decide +kernel, hundone held ?_ ?_ ?_ ?_, by decide +kernel, by decide +kernel,
    hundone pooled ?_ ?_ ?_ ?_⟩ <;> decide +kernel

end Book

end StakeAccounting

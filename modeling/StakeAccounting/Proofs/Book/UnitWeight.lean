import StakeAccounting.Proofs.Book.Solvency
import StakeAccounting.Proofs.Decimal.Units

/-!
# Tokens that grant one for one

All tokens of the protocol grant one unit of stake weight per unit of base value. For
such a token the two are equal in every lot of a book in use (`Lot.Even`), and not only
nearly so: they are computed apart, each with its own rounding, but a product with one is
exact, and equal numbers added to equal numbers are rounded alike (`Decimal.same_of_plus`).
So the two stay together through every split, merge and credit.

With them goes the one obstacle that a solvent withdrawal can meet. The stake weight that
a part of a lot takes is the base value that it takes, and there is enough of that.
-/

namespace StakeAccounting

namespace Decimal

/-- A product with one is exact. -/
theorem same_of_one_mul? {a b c : Decimal} (ha : a.Same one) (h : mul? a b = some c) :
    c.Same b := by
  have hn := nearest?_of_mul? h
  rw [(same_def a one).mp ha, quanta_one, Int.mul_comm, nearest?_quanta] at hn
  exact (Option.some.inj hn).symm

/-- A product with one is the product of the values. -/
theorem value_of_same {a b c : Decimal} (ha : a.Same one) (hc : c.Same b) :
    c.value = a.value * b.value := by
  rw [value_eq, value_eq, value_eq, (same_def c b).mp hc, (same_def a one).mp ha, quanta_one]
  have ht : ((tens 28 : Int) : Rat) ≠ 0 :=
    Int.cast_ne_zero.mpr (Int.natCast_ne_zero.mpr (Nat.ne_of_gt (tens_pos 28)))
  field_simp

theorem Same.neg {a b : Decimal} (h : a.Same b) : (-a).Same (-b) := by
  rw [same_def] at h ⊢
  rw [quanta_neg, quanta_neg, h]

end Decimal

/-- **An even lot**: as much stake weight as base value. -/
def Lot.Even (l : Lot) : Prop := l.stakeWeight.Same l.baseValue

/-- Two even lots make an even one. -/
theorem Lot.Even.merge {l other m : Lot} (hl : l.Even) (ho : other.Even)
    (h : l.merge other = .ok m) : m.Even := by
  obtain ⟨-, -, hbase, hstake, -⟩ := merge_eq_ok h
  exact Decimal.same_of_plus hl ho hstake hbase

/-- A removal from an even lot that takes as much stake weight as base value. -/
theorem Selector.Takes.even {s : Selector} {t : Token} {now : Epoch} {l : Lot} {d : LotDelta}
    (h : s.Takes t now l d) (hl : l.Even) (ht : t.stakePerBase.Same .one) :
    d.baseStakeWeight.Same d.baseValue := by
  obtain ⟨consumed, -, -, h⟩ := h
  obtain ⟨baseValue, yieldRate, base, grown, accrued, stakeWeight, hshare, -, -, -, rfl⟩ :=
    split_eq_ok h
  -- a whole lot gives up what it stores, a part what is granted for its base value
  obtain ⟨-, rfl, -, rfl⟩ | ⟨-, fraction, -, -, -, hw⟩ := shareOf_cases hshare
  · exact Decimal.Same.neg hl
  · exact (Decimal.same_of_one_mul? ht hw).neg

/-- The lot of a deposit is even. -/
theorem Deposit.even_newLot {table : TokenTable} {feed : PriceFeed} {id : TokenId}
    {amount : Decimal} {now : Epoch} {l : Lot}
    (hunit : ∀ t, table.get id = .ok t → t.stakePerBase.Same .one)
    (h : newLot table feed id amount now = .ok l) : l.Even := by
  obtain ⟨-, t, baseValue, stakeWeight, yieldRate, ht, -, hstake, -, rfl⟩ := newLot_eq_ok h
  exact Decimal.same_of_one_mul? (hunit t ht) hstake

namespace Book

/-- **A table that grants one for one** for a token, if it lists it. -/
def GrantsEven (table : TokenTable) (t : TokenId) : Prop :=
  ∀ entry, table.get t = .ok entry → entry.stakePerBase.Same .one

/-- **A request under a table that grants one for one**, as far as one token goes. It
loads no ledger of that token. -/
def Request.Even (t : TokenId) : Request → Prop
  | .load h _ => h.token ≠ t
  | .deposit table _ h _ _ => h.token = t → GrantsEven table t
  | .withdraw s h _ _ => h.token = t → GrantsEven s.table t
  | .transfer s _ _ token _ _ => token = t → GrantsEven s.table t

/-- **A view of even lots**, as far as one token goes. -/
def EvenView (t : TokenId) (v : Holding → Ledger) : Prop :=
  ∀ a, ∀ l ∈ (v ⟨a, t⟩).lots, l.Even

theorem EvenView.update {t : TokenId} {v : Holding → Ledger} {h : Holding} {g : Ledger}
    (hv : EvenView t v) (hg : h.token = t → ∀ l ∈ g.lots, l.Even) :
    EvenView t (Function.update v h g) :=
  forall_update_token (P := fun g => ∀ l ∈ g.lots, l.Even) hv hg

variable {t : TokenId}

/-- **The removals of a selection from even lots** take as much stake weight as base
value. -/
theorem even_of_select {s : Selector} {order : SelectionOrder} {requested : Decimal}
    {ls : List Lot} {now : Epoch} {sel : Selection} (hls : ∀ l ∈ ls, l.Even)
    (hunit : GrantsEven s.table t) (hsel : s.select order t requested ls now = .ok sel) :
    ∀ d ∈ sel.deltas, d.baseStakeWeight.Same d.baseValue := by
  obtain ⟨-, entry, hentry, htakes⟩ := Selector.exists_takes hsel
  intro d hd
  obtain ⟨l, hl, -, htake⟩ := htakes d hd
  exact htake.even (hls l hl) (hunit entry hentry)

/-- Removals that take as much stake weight as base value leave even lots even. -/
theorem even_applyDeltas {g after : Ledger} {ds : List LotDelta} (hg : ∀ l ∈ g.lots, l.Even)
    (hds : ∀ d ∈ ds, d.baseStakeWeight.Same d.baseValue) (h : g.applyDeltas ds = .ok after) :
    ∀ l ∈ after.lots, l.Even :=
  Ledger.forall_applyDeltas
    (fun d hd _ _ hx hleft => hx.merge (show d.added.Even from hds d hd) hleft) hg h

/-- **A request that succeeds** leaves even lots. -/
theorem Moves.even {v v' : Holding → Ledger} {r : Request} {x : Receipt} (hr : r.Even t)
    (hv : EvenView t v) (h : Moves v r x v') : EvenView t v' := by
  cases h with
  | load hg => exact hv.update fun hk => absurd hk hr
  | deposit hl hg =>
    refine hv.update ?_
    rintro rfl
    exact Ledger.forall_append (fun _ _ hx hl hm => hx.merge hl hm) (hv _)
      (Deposit.even_newLot (hr rfl) hl) hg
  | withdraw hsel hg =>
    refine hv.update ?_
    rintro rfl
    exact even_applyDeltas (hv _) (even_of_select (hv _) (hr rfl) hsel) hg
  | @transfer s sender recipient token amount now sel debited credited hsel hdebited hcredited =>
    by_cases hk : token = t
    · subst hk
      have hds := even_of_select (hv sender) (hr rfl) hsel
      have hbetween := hv.update (h := ⟨sender, token⟩) fun _ =>
        even_applyDeltas (hv sender) hds hdebited
      refine hbetween.update fun _ => ?_
      refine Ledger.forall_appendAll (fun _ _ _ hx hl hm => hx.merge hl hm) (fun l hl => ?_)
        (hbetween recipient) hcredited
      obtain ⟨d, hd, rfl⟩ := List.mem_map.mp hl
      exact (hds d hd).neg
    · exact (hv.update fun h => absurd h hk).update fun h => absurd h hk

/-- **All lots are even** behind every list of requests under tables that grant one for
one. -/
theorem even_run {rs : List Request} (hrs : ∀ r ∈ rs, r.Even t) :
    EvenView t (empty.run rs).1.ledgerOrEmpty :=
  WellFormed.run_keeps (fun _ _ _ _ _ hr hmoves hv => hmoves.even hr hv) wellFormed_empty hrs
    fun _ _ hl => absurd hl List.not_mem_nil

/-- **No drift of the stake weight.** Take a book in use whose requests were made under
tables that grant one for one for a token, with no ledger of it loaded. Then every lot of
the token has as much stake weight as base value; every removal that is selected from its
lots, in whatever order, takes exactly the stake weight that is granted for its base value;
and every solvent withdrawal succeeds. -/
theorem unit_weight (rs : List Request) (t : TokenId) (hrs : ∀ r ∈ rs, r.Even t) :
    (∀ a, ∀ l ∈ (empty.run rs).1.lots ⟨a, t⟩, l.stakeWeight.Same l.baseValue) ∧
    (∀ (s : Selector) (entry : Token), s.table.get t = .ok entry →
      entry.stakePerBase.Same .one → ∀ a order requested now sel,
        s.select order t requested ((empty.run rs).1.lots ⟨a, t⟩) now = .ok sel →
          ∀ d ∈ sel.deltas,
            d.baseStakeWeight.value = entry.stakePerBase.value * d.baseValue.value) ∧
    (∀ (s : Selector) (entry : Token), s.table.get t = .ok entry →
      entry.stakePerBase.Same .one → ∀ a amount now,
        (empty.run rs).1.Solvent s ⟨a, t⟩ amount now →
          ∃ sel, ((empty.run rs).1.withdraw s ⟨a, t⟩ amount now).2 = .ok sel) := by
  have hb := wellFormed_empty.run rs
  have heven := even_run hrs
  have hgrants : ∀ (table : TokenTable) entry, table.get t = .ok entry →
      entry.stakePerBase.Same .one → GrantsEven table t := by
    intro table entry hentry hone other hother
    rw [hentry] at hother
    exact Except.ok.inj hother ▸ hone
  refine ⟨heven, ?_, ?_⟩
  · intro s entry hentry hone a order requested now sel hsel d hd
    exact Decimal.value_of_same hone
      (even_of_select (heven a) (hgrants _ entry hentry hone) hsel d hd)
  · intro s entry hentry hone a amount now hs
    obtain ⟨sel, hsel, ⟨-, hok⟩ | ⟨⟨d, hd, hover⟩, -⟩⟩ := hs.withdraw_cases hb hentry
    · exact ⟨sel, hok⟩
    · -- the stake weight that is taken is the base value that is taken, which is there
      refine absurd (fun l hl => ?_) hover
      have hsame := even_of_select (heven a) (hgrants _ entry hentry hone) hsel d hd
      have hstored := heven a l (Ledger.mem_of_get? hl)
      have hwithin := ((hb.ledger _).within_of_select hsel hd hl).baseValue
      unfold Lot.Even at hstored
      rw [Decimal.same_def] at hsame hstored
      omega

/-- Three tokens worth one unit of base value are deposited, and two withdrawn one by one:
the lot that is left has a third of the unit, as far as there is one, and the same of stake
weight. So almost the whole of it can be withdrawn. -/
theorem unit_weight_third :
    let s : Selector := ⟨.standard, Selector.standardAccrualRate⟩
    let h : Holding := ⟨.null, TokenTable.beanPoolId⟩
    let rs : List Request :=
      [ .deposit .standard (.flat .one) h (.ofUInt32 3) ⟨1⟩, .withdraw s h .one ⟨1⟩,
        .withdraw s h .one ⟨1⟩ ]
    ((empty.run rs).1.lots h).map (·.baseValue) =
        [⟨false, 3333333333333333333333333333, 28, by decide, by decide⟩] ∧
      (∀ l ∈ (empty.run rs).1.lots h, l.stakeWeight.Same l.baseValue) ∧
      ∃ sel, ((empty.run rs).1.withdraw s h almostOne ⟨1⟩).2 = .ok sel := by
  intro s h rs
  have hlisted : TokenTable.standard.get TokenTable.beanPoolId =
      .ok ⟨TokenTable.beanPoolId, "BEAN3CRV", .one, .ofUInt32 4, 18, .pooled⟩ := by
    decide +kernel
  have hgrants : GrantsEven .standard TokenTable.beanPoolId := by
    intro entry hentry
    rw [hlisted] at hentry
    cases hentry
    rfl
  have hrs : ∀ r ∈ rs, r.Even TokenTable.beanPoolId := by
    intro r hr
    simp only [rs, List.mem_cons, List.not_mem_nil, or_false] at hr
    rcases hr with rfl | rfl | rfl
    · exact fun _ => hgrants
    · exact fun _ => hgrants
    · exact fun _ => hgrants
  have hsolvent : (empty.run rs).1.Solvent s h almostOne ⟨1⟩ := by
    refine ⟨by decide, by decide, ⟨.one, by decide +kernel, by decide⟩, by decide +kernel,
      ⟨28, Nat.le_refl 28, Int.one_dvd _, fun l _ => Int.one_dvd _, by decide +kernel⟩, ?_⟩
    intro t ht
    obtain rfl := Except.ok.inj (hlisted.symm.trans ht)
    decide +kernel
  have hall := unit_weight rs TokenTable.beanPoolId hrs
  exact ⟨by decide +kernel, hall.1 .null,
    hall.2.2 s _ hlisted rfl .null almostOne ⟨1⟩ hsolvent⟩

end Book

end StakeAccounting

import StakeAccounting.Proofs.Book.Independent
import StakeAccounting.Proofs.Book.Step
import StakeAccounting.Proofs.Ledger.Epochs

/-!
# Two credits to one ledger

A **credit** adds lots to the ledger of a holding: a deposit adds one, a transfer from another
account those that it takes there. Two credits to one ledger name it both, so they are not
independent, and what they leave may depend on their order, as merging a lot adds decimals,
which rounds. Two things do not depend on it.

The first is whether a credit succeeds. Its lots are made without looking at the ledger they
go to (`Credit.made`), and a ledger refuses a lot for nothing but its own form. What a merge
can do is overflow; as long as none does, the outcome is that of checking the lots
(`snd_perform_credit`).

The second is the amount at each epoch, where the amounts are on a grid and no sum leaves it
(`amountAt_credit`): then a credit adds to each epoch what its lots have there, and it does
not matter which of two credits does so first (`perform_comm`).
-/

namespace StakeAccounting

namespace Book

/-! ## Credits -/

/-- **A credit** to a holding: an amount is deposited, or transferred from another account. -/
inductive Credit where
  /-- Deposit an amount at an epoch. -/
  | deposit (table : TokenTable) (feed : PriceFeed) (amount : Decimal) (now : Epoch)
  /-- Transfer an amount at an epoch. -/
  | transfer (selector : Selector) (sender : Account) (amount : Decimal) (now : Epoch)

namespace Credit

/-- The credit as a request. -/
def request (h : Holding) : Credit → Request
  | deposit table feed amount now => .deposit table feed h amount now
  | transfer s sender amount now => .transfer s sender h.account h.token amount now

/-- The amount that is credited. -/
def amount : Credit → Decimal
  | deposit _ _ amount _ => amount
  | transfer _ _ amount _ => amount

/-- The holding that is debited for the credit, if one is. -/
def source? (h : Holding) : Credit → Option Holding
  | deposit .. => none
  | transfer _ sender _ _ => some ⟨sender, h.token⟩

/-- **What is made of a credit** before it is added: the receipt, and the lots to add. -/
def made (b : Book) (h : Holding) : Credit → Outcome (Receipt × List Lot)
  | deposit table feed amount now => do
    let l ← Deposit.newLot table feed h.token amount now
    pure (.deposited l, [l])
  | transfer s sender amount now => do
    let sel ← s.selectFor .transfer h.token amount (b.lots ⟨sender, h.token⟩) now
    let held ← Ledger.ofLots h.token (b.lots ⟨sender, h.token⟩)
    let _ ← held.applyDeltas sel.deltas
    pure (.moved sel, sel.deltas.map (·.asCredit))

/-- **On the grid**: the amount is, and has room there, and the amounts of the ledger that is
debited are. -/
def OnGrid (places : Nat) (b : Book) (h : Holding) (p : Credit) : Prop :=
  (p.amount.OnGrid places ∧ p.amount.quanta < Decimal.gridLimit places) ∧
    ∀ k, p.source? h = some k → (b.ledgerOrEmpty k).OnGrid places

end Credit

variable {b b' : Book} {h : Holding} {p q : Credit} {x y : Receipt} {cs ds : List Lot}
  {places : Nat}

theorem made_congr (hk : ∀ k, p.source? h = some k → b.ledger? k = b'.ledger? k) :
    p.made b h = p.made b' h := by
  cases p with
  | deposit table feed amount now => rfl
  | transfer s sender amount now =>
    have hsource := ledgerOrEmpty_congr (hk ⟨sender, h.token⟩ rfl)
    simp only [Credit.made, lots, hsource]

/-- **The outcome of a credit**: that of making its lots, and then of adding them. -/
theorem snd_perform_request (hne : p.source? h ≠ some h) :
    (b.perform (p.request h)).2 =
      p.made b h >>= fun m => (fun _ => m.1) <$> (b.ledgerOrEmpty h).appendAll m.2 := by
  cases p with
  | deposit table feed amount now =>
    simp only [Credit.request, Credit.made, perform, receipt, deposit]
    cases Deposit.newLot table feed h.token amount now with
    | error failure => rfl
    | ok l =>
      have hadd : (b.ledgerOrEmpty h).appendAll [l] = (b.ledgerOrEmpty h).append l := bind_pure _
      show Receipt.deposited <$> ((b.openLedger h).enter _).2 = _
      have hmade : (do let l ← Except.ok l; pure (Receipt.deposited l, [l]) : Outcome _) =
          pure (.deposited l, [l]) := rfl
      rw [snd_enter, hmade]
      simp only [map_eq_pure_bind, bind_assoc, pure_bind, hadd]
  | transfer s sender amount now =>
    have hother : sender ≠ h.account := by
      rintro rfl
      exact hne rfl
    simp only [Credit.request, Credit.made, perform, receipt, transfer, snd_enter, if_neg hother,
      map_eq_pure_bind, bind_assoc, pure_bind]

/-- **A credit that does not overflow** succeeds where its lots can be made and each is
well-formed. The ledger they are added to is not asked. -/
theorem snd_perform_credit (hne : p.source? h ≠ some h)
    (hin : (b.perform (p.request h)).2 ≠ .error .overflow) :
    (b.perform (p.request h)).2 =
      p.made b h >>= fun m => (fun _ => m.1) <$> m.2.forM Lot.check := by
  rw [snd_perform_request hne] at hin ⊢
  cases hmade : p.made b h with
  | error failure => rfl
  | ok m =>
    rw [hmade] at hin
    have hchecks : (fun _ => ()) <$> (b.ledgerOrEmpty h).appendAll m.2 = m.2.forM Lot.check :=
      Ledger.void_appendAll fun hover => hin (by
        show (fun _ => m.1) <$> (b.ledgerOrEmpty h).appendAll m.2 = _
        rw [hover]
        rfl)
    show (fun _ => m.1) <$> (b.ledgerOrEmpty h).appendAll m.2 =
      (fun _ => m.1) <$> m.2.forM Lot.check
    rw [← hchecks, Functor.map_map]

/-- The outcome of a credit is the same on two books that agree on the ledger it is taken
from, if it overflows on neither. -/
theorem snd_perform_credit_congr (hne : p.source? h ≠ some h)
    (hk : ∀ k, p.source? h = some k → b.ledger? k = b'.ledger? k)
    (hin : (b.perform (p.request h)).2 ≠ .error .overflow)
    (hin' : (b'.perform (p.request h)).2 ≠ .error .overflow) :
    (b.perform (p.request h)).2 = (b'.perform (p.request h)).2 := by
  rw [snd_perform_credit hne hin, snd_perform_credit hne hin', made_congr hk]

/-- A credit that succeeds adds the lots that are made of it. -/
theorem exists_made (hb : b.WellFormed) (hne : p.source? h ≠ some h)
    (hok : (b.perform (p.request h)).2 = .ok x) :
    ∃ cs, p.made b h = .ok (x, cs) ∧ (b.ledgerOrEmpty h).appendAll cs =
      .ok ((b.perform (p.request h)).1.ledgerOrEmpty h) := by
  have henters := enters_of_ok hok
  cases p with
  | deposit table feed amount now =>
    unfold Credit.request at henters ⊢
    generalize (b.perform _).1 = after at henters ⊢
    cases henters with
    | @deposit _ _ _ _ _ l g hl hg =>
      refine ⟨[l], Outcome.bind_eq_ok.mpr ⟨l, hl, rfl⟩, ?_⟩
      rw [ledgerOrEmpty_put, Function.update_self, ← hg]
      exact bind_pure _
  | transfer s sender amount now =>
    unfold Credit.request at henters ⊢
    generalize (b.perform _).1 = after at henters ⊢
    cases henters with
    | transferSelf => exact absurd rfl hne
    | @transfer _ _ _ _ _ _ sel held debited credited _ hsel hheld hdebited hcredited =>
      refine ⟨sel.deltas.map (·.asCredit), Outcome.bind_eq_ok.mpr ⟨sel, hsel,
        Outcome.bind_eq_ok.mpr ⟨held, hheld, Outcome.bind_eq_ok.mpr ⟨debited, hdebited, rfl⟩⟩⟩, ?_⟩
      rw [ledgerOrEmpty_commit ((Ledger.token_appendAll hcredited).trans (hb.token _)),
        Function.update_self]
      exact hcredited

/-- Lots that are made of amounts on the grid have amounts on the grid. -/
theorem onGrid_made (hgrid : p.OnGrid places b h) (hmade : p.made b h = .ok (x, cs)) :
    ∀ l ∈ cs, l.rawAmount.OnGrid places := by
  obtain ⟨⟨hamount, -⟩, hsource⟩ := hgrid
  cases p with
  | deposit table feed amount now =>
    obtain ⟨l, hl, hm⟩ := Outcome.bind_eq_ok.mp hmade
    obtain ⟨-, _, _, _, _, -, -, -, -, hlot⟩ := Deposit.newLot_eq_ok hl
    cases hm
    intro y hy
    rw [List.mem_singleton.mp hy, hlot]
    exact hamount
  | transfer s sender amount now =>
    obtain ⟨sel, hsel, hm⟩ := Outcome.bind_eq_ok.mp hmade
    obtain ⟨held, -, hm⟩ := Outcome.bind_eq_ok.mp hm
    obtain ⟨debited, -, hm⟩ := Outcome.bind_eq_ok.mp hm
    cases hm
    have hdeltas := Selector.onGrid_select (hsource ⟨sender, h.token⟩ rfl) hamount hsel
    intro y hy
    obtain ⟨d, hd, rfl⟩ := List.mem_map.mp hy
    exact (hdeltas d hd).neg

/-- **A credit on the grid** adds to each epoch what its lots have there. -/
theorem amountAt_credit (hb : b.WellFormed) (hp : places ≤ 28) (hne : p.source? h ≠ some h)
    (hheld : (b.ledgerOrEmpty h).OnGrid places) (hmade : p.made b h = .ok (x, cs))
    (hcs : ∀ l ∈ cs, l.rawAmount.OnGrid places)
    (hroom : ∀ e, (b.ledgerOrEmpty h).amountAt e + Ledger.addedAt cs e <
      Decimal.gridLimit places)
    (hok : (b.perform (p.request h)).2 = .ok y) :
    (∀ e, ((b.perform (p.request h)).1.ledgerOrEmpty h).amountAt e =
        (b.ledgerOrEmpty h).amountAt e + Ledger.addedAt cs e) ∧
      ((b.perform (p.request h)).1.ledgerOrEmpty h).OnGrid places := by
  obtain ⟨ds, hmade', hadded⟩ := exists_made hb hne hok
  cases hmade.symm.trans hmade'
  exact (hb.ledger h).toGuarded.amountAt_appendAll hp hheld hcs hroom hadded

/-! ## Two credits -/

/-- **Credits that do not meet** but in the ledger they go to: neither is taken from it, nor
both from the same. -/
structure Credit.Apart (h : Holding) (p q : Credit) : Prop where
  /-- The first is taken from elsewhere. -/
  first : p.source? h ≠ some h
  /-- The second is taken from elsewhere. -/
  second : q.source? h ≠ some h
  /-- They are not taken from the same ledger. -/
  distinct : ∀ k, p.source? h = some k → q.source? h ≠ some k

/-- **Credits without rounding**: all amounts are on a grid, and what the epochs of the ledger
come to stays within it. -/
structure Credit.Unrounded (places : Nat) (b : Book) (h : Holding) (p q : Credit) : Prop where
  /-- The grid is one of decimals. -/
  places_le : places ≤ 28
  /-- The ledger is on it. -/
  held : (b.ledgerOrEmpty h).OnGrid places
  /-- The first credit is on it. -/
  first : p.OnGrid places b h
  /-- The second credit is on it. -/
  second : q.OnGrid places b h
  /-- There is room for what both add to an epoch. -/
  room : ∀ x y cs ds, p.made b h = .ok (x, cs) → q.made b h = .ok (y, ds) → ∀ e,
    (b.ledgerOrEmpty h).amountAt e + (Ledger.addedAt cs e + Ledger.addedAt ds e) <
      Decimal.gridLimit places

theorem Credit.Apart.symm (ha : p.Apart h q) : q.Apart h p :=
  ⟨ha.second, ha.first, fun k hq hp => ha.distinct k hp hq⟩

theorem Credit.Unrounded.symm (hu : p.Unrounded places b h q) : q.Unrounded places b h p where
  places_le := hu.places_le
  held := hu.held
  first := hu.second
  second := hu.first
  room := fun x y cs ds hq hp e => by
    have := hu.room y x ds cs hp hq e
    omega

/-- No request overflows where `r` is performed before `s`. -/
def InRange (b : Book) (r s : Request) : Prop :=
  (b.perform r).2 ≠ .error .overflow ∧ ((b.perform r).1.perform s).2 ≠ .error .overflow

theorem not_mem_holdings_request {k : Holding} (hk : k ≠ h) (hq : q.source? h ≠ some k) :
    k ∉ (q.request h).holdings := by
  cases q with
  | deposit table feed amount now => exact List.not_mem_cons_of_ne_of_not_mem hk List.not_mem_nil
  | transfer s sender amount now =>
    refine List.not_mem_cons_of_ne_of_not_mem (fun hsource => hq (congrArg some hsource.symm)) ?_
    exact List.not_mem_cons_of_ne_of_not_mem hk List.not_mem_nil

/-- A credit leaves the ledger that the other is taken from. -/
theorem Credit.Apart.ledger?_perform (ha : p.Apart h q) :
    ∀ k, p.source? h = some k → b.ledger? k = (b.perform (q.request h)).1.ledger? k := by
  intro k hk
  have hkh : k ≠ h := by
    rintro rfl
    exact ha.first hk
  exact (ledger?_perform_of_not_mem (not_mem_holdings_request hkh (ha.distinct k hk))).symm

/-- **A credit comes to the same** before another and after it. -/
theorem Credit.Apart.snd_perform (ha : p.Apart h q) (hpq : b.InRange (p.request h) (q.request h))
    (hqp : b.InRange (q.request h) (p.request h)) :
    ((b.perform (q.request h)).1.perform (p.request h)).2 = (b.perform (p.request h)).2 :=
  (snd_perform_credit_congr ha.first ha.ledger?_perform hpq.1 hqp.2).symm

/-- **Two credits** that succeed add to each epoch what the lots of both have there. -/
theorem amountAt_credits (hb : b.WellFormed) (ha : p.Apart h q)
    (hu : p.Unrounded places b h q) (hx : (b.perform (p.request h)).2 = .ok x)
    (hy : ((b.perform (p.request h)).1.perform (q.request h)).2 = .ok y) :
    ∃ cs ds, p.made b h = .ok (x, cs) ∧ q.made b h = .ok (y, ds) ∧ ∀ e,
      (((b.perform (p.request h)).1.perform (q.request h)).1.ledgerOrEmpty h).amountAt e =
        (b.ledgerOrEmpty h).amountAt e + (Ledger.addedAt cs e + Ledger.addedAt ds e) := by
  obtain ⟨cs, hcs, -⟩ := exists_made hb ha.first hx
  obtain ⟨ds, hds', hadded⟩ := exists_made (hb.perform _) ha.second hy
  have hds := (made_congr ha.symm.ledger?_perform).trans hds'
  have hroom := hu.room x y cs ds hcs hds
  have hrest : ∀ e, 0 ≤ Ledger.addedAt ds e :=
    Ledger.addedAt_nonneg (Ledger.valid_of_appendAll hadded)
  obtain ⟨hfirst, hheld⟩ := amountAt_credit hb hu.places_le ha.first hu.held hcs
    (onGrid_made hu.first hcs) (fun e => by
      have := hroom e
      have := hrest e
      omega) hx
  obtain ⟨hsecond, -⟩ := amountAt_credit (hb.perform _) hu.places_le ha.second hheld hds'
    (onGrid_made hu.second hds) (fun e => by
      have := hroom e
      rw [hfirst]
      omega) hy
  refine ⟨cs, ds, hcs, hds, fun e => ?_⟩
  rw [hsecond, hfirst, Int.add_assoc]

/-- The amounts at the epochs do not depend on the order of two credits. -/
theorem amountAt_comm (hb : b.WellFormed) (ha : p.Apart h q) (hu : p.Unrounded places b h q)
    (hpq : b.InRange (p.request h) (q.request h)) (hqp : b.InRange (q.request h) (p.request h))
    (e : Epoch) :
    (((b.perform (p.request h)).1.perform (q.request h)).1.ledgerOrEmpty h).amountAt e =
      (((b.perform (q.request h)).1.perform (p.request h)).1.ledgerOrEmpty h).amountAt e := by
  have hp := ha.snd_perform hpq hqp
  have hq := ha.symm.snd_perform hqp hpq
  cases hx : (b.perform (p.request h)).2 with
  | error failure =>
    -- a credit that fails leaves no trace, in either order
    rw [perform_of_error hx, perform_of_error (hp.trans hx)]
  | ok x =>
    cases hy : (b.perform (q.request h)).2 with
    | error failure => rw [perform_of_error hy, perform_of_error (hq.trans hy)]
    | ok y =>
      obtain ⟨cs, ds, hcs, hds, hpqe⟩ := amountAt_credits hb ha hu hx (hq.trans hy)
      obtain ⟨ds', cs', hds', hcs', hqpe⟩ := amountAt_credits hb ha.symm hu.symm hy (hp.trans hx)
      cases hcs.symm.trans hcs'
      cases hds.symm.trans hds'
      rw [hpqe, hqpe]
      omega

/-- **Independent requests commute.** Two requests that name no holding in common have the
same outcomes in either order, whatever the outcomes and the book, and leave the same ledger
at every holding.

Two credits to one ledger, taken from different others if from any, have the same outcomes in
either order, if none overflows; and where the amounts are not rounded, on a well-formed book,
as every run makes it, they leave the same amount at every epoch. -/
theorem perform_comm (b : Book) :
    (∀ r s : Request, r.holdings.Disjoint s.holdings →
      ((b.perform s).1.perform r).2 = (b.perform r).2 ∧
        ((b.perform r).1.perform s).2 = (b.perform s).2 ∧
        ∀ k, ((b.perform r).1.perform s).1.ledger? k = ((b.perform s).1.perform r).1.ledger? k) ∧
    ∀ (h : Holding) (p q : Credit), p.Apart h q →
      b.InRange (p.request h) (q.request h) → b.InRange (q.request h) (p.request h) →
      ((b.perform (q.request h)).1.perform (p.request h)).2 = (b.perform (p.request h)).2 ∧
        ((b.perform (p.request h)).1.perform (q.request h)).2 = (b.perform (q.request h)).2 ∧
        ∀ places, b.WellFormed → p.Unrounded places b h q → ∀ e,
          ((((b.perform (p.request h)).1.perform (q.request h)).1.ledgerOrEmpty h).get? e).map
              (·.rawAmount.quanta) =
            ((((b.perform (q.request h)).1.perform (p.request h)).1.ledgerOrEmpty h).get? e).map
              (·.rawAmount.quanta) := by
  constructor
  · intro r s h
    exact ⟨snd_perform_of_disjoint h, snd_perform_of_disjoint fun _ hs hr => h hr hs,
      ledger?_perform_comm h⟩
  · intro h p q ha hpq hqp
    refine ⟨ha.snd_perform hpq hqp, ha.symm.snd_perform hqp hpq, fun places hb hu e => ?_⟩
    exact Ledger.Guarded.map_get?_congr (((hb.perform _).perform _).ledger h).toGuarded
      (((hb.perform _).perform _).ledger h).toGuarded (amountAt_comm hb ha hu hpq hqp e)

/-- Half a token is deposited and one is transferred to an account that holds one of the same
epoch: it holds two and a half in the end, whichever comes first. A withdrawal by someone
else comes to the same before the deposit and after it. -/
theorem perform_comm_half :
    let payer : Account := ⟨List.replicate 20 1, rfl⟩
    let payee : Account := ⟨List.replicate 20 2, rfl⟩
    let s : Selector := ⟨.standard, Selector.standardAccrualRate⟩
    let h : Holding := ⟨payee, TokenTable.beanId⟩
    let b := (empty.run
      [ .deposit .standard .none ⟨payer, TokenTable.beanId⟩ (.ofUInt32 3) ⟨1⟩,
        .deposit .standard .none h .one ⟨1⟩ ]).1
    let p : Credit := .deposit .standard .none (.percent 50) ⟨1⟩
    let q : Credit := .transfer s payer .one ⟨2⟩
    let w : Request := .withdraw s ⟨payer, TokenTable.beanId⟩ .one ⟨2⟩
    ((b.perform (p.request h)).1.perform w).2 = (b.perform w).2 ∧
      ((b.perform (q.request h)).1.perform (p.request h)).2 = (b.perform (p.request h)).2 ∧
      ((((b.perform (q.request h)).1.perform (p.request h)).1.ledgerOrEmpty h).get? ⟨1⟩).map
        (·.rawAmount.quanta) = some 25000000000000000000000000000 := by
  intro payer payee s h b p q w
  obtain ⟨hindependent, hcredits⟩ := perform_comm b
  have hdisjoint : (p.request h).holdings.Disjoint w.holdings :=
    List.singleton_disjoint.mpr (by decide)
  have hapart : p.Apart h q := ⟨by decide, by decide, fun k hk => nomatch hk⟩
  have hpq : b.InRange (p.request h) (q.request h) := ⟨by decide +kernel, by decide +kernel⟩
  have hqp : b.InRange (q.request h) (p.request h) := ⟨by decide +kernel, by decide +kernel⟩
  have hb : b.WellFormed := wellFormed_empty.run _
  have hgrid : ∀ k ∈ [h, ⟨payer, TokenTable.beanId⟩],
      ∀ l ∈ (b.ledgerOrEmpty k).lots, l.rawAmount.OnGrid 6 := by decide +kernel
  -- each credit adds one token at most
  have hadds : ∀ c ∈ [p, q], ∀ x cs, c.made b h = .ok (x, cs) → ∀ e,
      Ledger.addedAt cs e ≤ tens 28 := by
    have hmade : ∀ c ∈ [p, q], (fun m => decide ((∀ l ∈ m.2, l.Valid) ∧
        (m.2.map fun l => l.rawAmount.quanta).sum ≤ (tens 28 : Int))) <$> c.made b h =
          .ok true := by decide +kernel
    intro c hc x cs hcs e
    have hall := hmade c hc
    rw [hcs] at hall
    obtain ⟨hvalid, hsum⟩ := of_decide_eq_true (Except.ok.inj hall)
    exact Int.le_trans (Ledger.addedAt_le hvalid e) hsum
  have hunrounded : p.Unrounded 6 b h q :=
    { places_le := by decide
      held := hgrid h List.mem_cons_self
      first := ⟨by decide, nofun⟩
      second := ⟨by decide, fun k hk => by
        cases hk
        exact hgrid ⟨payer, TokenTable.beanId⟩ (by simp)⟩
      room := fun x y cs ds hcs hds e => by
        have hheld := (hb.ledger h).toGuarded.amountAt_le e
        have hamount : (b.ledgerOrEmpty h).amount = tens 28 := by decide +kernel
        have hfirst := hadds p List.mem_cons_self x cs hcs e
        have hsecond := hadds q (by simp) y ds hds e
        have hlimit : (3 : Int) * tens 28 < Decimal.gridLimit 6 := by decide
        omega }
  obtain ⟨-, hw, -⟩ := hindependent _ _ hdisjoint
  obtain ⟨hp, -, hsame⟩ := hcredits h p q hapart hpq hqp
  refine ⟨hw, hp, (hsame 6 hb hunrounded ⟨1⟩).symm.trans ?_⟩
  decide +kernel

end Book

end StakeAccounting

import Mathlib.Algebra.BigOperators.Group.Finset.Piecewise
import Mathlib.Algebra.Order.BigOperators.Group.Finset
import Mathlib.Data.Fintype.Pi
import StakeAccounting.Proofs.Book.Step

/-!
# Supply is conserved

The **supply** of a token is the exact sum of what all accounts hold of it. On a grid
with room for all that is deposited it changes by what comes in and goes out, and by
nothing else: a deposit that succeeds adds its amount, a withdrawal that succeeds takes
its amount, and transfers – to other accounts or the same – and requests that fail
leave it as it is. This is `Moves.supply` for one request, and `supply_run` for every
list of requests, where the supply is that of the balances the book answers with.

The grid is needed, since decimals are rounded, and it is kept: what is on it at the
start and asked for on it stays on it, however lots are split and merged.
-/

namespace StakeAccounting

/-- There are finitely many accounts. -/
noncomputable instance : Fintype Account :=
  Fintype.ofInjective
    (fun (a : Account) (i : Fin 20) => (a.bytes.get (i.cast a.length_eq.symm)).toFin)
    (fun a b h => by
      obtain ⟨as, ha⟩ := a
      obtain ⟨bs, hb⟩ := b
      congr 1
      refine List.ext_get (ha.trans hb.symm) fun i hi _ => ?_
      have hbyte := congrFun h ⟨i, ha ▸ hi⟩
      exact UInt8.toFin_inj.mp hbyte)

namespace Book

/-- **The supply of a token** in view: the exact sum of the ledgers of all accounts, in
units of `10^-28`. -/
noncomputable def supply (v : Holding → Ledger) (t : TokenId) : Int :=
  ∑ a : Account, (v ⟨a, t⟩).amount

/-- An update moves no ledger of another token. -/
theorem update_of_ne_token {v : Holding → Ledger} {h : Holding} {g : Ledger} {t : TokenId}
    (ht : h.token ≠ t) (a : Account) : Function.update v h g ⟨a, t⟩ = v ⟨a, t⟩ :=
  Function.update_of_ne (fun he => ht (congrArg Holding.token he).symm) g v

/-- **An update changes the supply** by what the new ledger has more. -/
theorem supply_update (v : Holding → Ledger) (h : Holding) (g : Ledger) (t : TokenId) :
    supply (Function.update v h g) t =
      supply v t + if h.token = t then g.amount - (v h).amount else 0 := by
  unfold supply
  split
  · rename_i ht
    obtain ⟨a, t'⟩ := h
    dsimp only at ht
    subst ht
    have hfun : (fun x => (Function.update v ⟨a, t'⟩ g ⟨x, t'⟩).amount) =
        Function.update (fun x => (v ⟨x, t'⟩).amount) a g.amount := by
      funext x
      by_cases hx : x = a
      · rw [hx, Function.update_self, Function.update_self]
      · rw [Function.update_of_ne hx,
          Function.update_of_ne fun he => hx (congrArg Holding.account he)]
    rw [hfun, Finset.sum_update_of_mem (Finset.mem_univ a), Finset.sdiff_singleton_eq_erase,
      ← Finset.add_sum_erase Finset.univ (fun x => (v ⟨x, t'⟩).amount) (Finset.mem_univ a)]
    ring
  · rename_i ht
    rw [Int.add_zero]
    exact Finset.sum_congr rfl fun a _ => congrArg Ledger.amount (update_of_ne_token ht a)

/-- **A view on a grid**, as far as one token goes. -/
def OnGrid (t : TokenId) (places : Nat) (v : Holding → Ledger) : Prop :=
  ∀ a, (v ⟨a, t⟩).OnGrid places

theorem OnGrid.update {t : TokenId} {places : Nat} {v : Holding → Ledger} {h : Holding}
    {g : Ledger} (hv : OnGrid t places v) (hg : h.token = t → g.OnGrid places) :
    OnGrid t places (Function.update v h g) :=
  forall_update_token hv hg

/-- No account holds more than the supply. -/
theorem WellFormedView.le_supply {v : Holding → Ledger} (hv : WellFormedView v) (h : Holding) :
    (v h).amount ≤ supply v h.token := by
  obtain ⟨a, t⟩ := h
  exact Finset.single_le_sum (f := fun x => (v ⟨x, t⟩).amount)
    (fun x _ => (hv.ledger ⟨x, t⟩).toGuarded.amount_nonneg) (Finset.mem_univ a)

/-! ## What is asked for -/

/-- **A request that can be counted** for a token: it loads no ledger of the token, and
any amount of the token that it asks for is on the grid. -/
def Request.OnGrid (t : TokenId) (places : Nat) : Request → Prop
  | .load h _ => h.token ≠ t
  | .deposit _ _ h amount _ => h.token = t → amount.OnGrid places
  | .withdraw _ h amount _ => h.token = t → amount.OnGrid places
  | .transfer _ _ _ token amount _ => token = t → amount.OnGrid places

/-- What a request deposits of a token, if it succeeds. -/
def depositedBy (t : TokenId) : Request → Outcome Receipt → Int
  | .deposit _ _ h amount _, .ok _ => if h.token = t then amount.quanta else 0
  | _, _ => 0

/-- What a request withdraws of a token, if it succeeds. -/
def withdrawnBy (t : TokenId) : Request → Outcome Receipt → Int
  | .withdraw _ h amount _, .ok _ => if h.token = t then amount.quanta else 0
  | _, _ => 0

/-- **What is deposited of a token** by all requests that succeed. -/
def deposited (t : TokenId) (rs : List Request) (outcomes : List (Outcome Receipt)) : Int :=
  (List.zipWith (depositedBy t) rs outcomes).sum

/-- **What is withdrawn of a token** by all requests that succeed. -/
def withdrawn (t : TokenId) (rs : List Request) (outcomes : List (Outcome Receipt)) : Int :=
  (List.zipWith (withdrawnBy t) rs outcomes).sum

theorem depositedBy_error (t : TokenId) (r : Request) (failure : Failure) :
    depositedBy t r (.error failure) = 0 := by
  cases r <;> rfl

theorem withdrawnBy_error (t : TokenId) (r : Request) (failure : Failure) :
    withdrawnBy t r (.error failure) = 0 := by
  cases r <;> rfl

/-- The lot of a deposit has the amount that is deposited. -/
theorem rawAmount_newLot {table : TokenTable} {feed : PriceFeed} {id : TokenId}
    {amount : Decimal} {now : Epoch} {l : Lot}
    (h : Deposit.newLot table feed id amount now = .ok l) :
    .zero < amount ∧ l.rawAmount = amount := by
  obtain ⟨hpos, t, baseValue, stakeWeight, yieldRate, -, -, -, -, rfl⟩ :=
    Deposit.newLot_eq_ok h
  exact ⟨hpos, rfl⟩

variable {t : TokenId} {places : Nat}

/-- What is deposited and withdrawn is positive. -/
theorem Moves.amounts_nonneg {v v' : Holding → Ledger} {r : Request} {x : Receipt}
    (h : Moves v r x v') : 0 ≤ depositedBy t r (.ok x) ∧ 0 ≤ withdrawnBy t r (.ok x) := by
  cases h with
  | load hg => exact ⟨Int.le_refl 0, Int.le_refl 0⟩
  | deposit hl hg =>
    refine ⟨?_, Int.le_refl 0⟩
    show 0 ≤ ite _ _ _
    split
    · exact Int.le_of_lt (rawAmount_newLot hl).1
    · exact Int.le_refl 0
  | withdraw hsel hg =>
    refine ⟨Int.le_refl 0, ?_⟩
    show 0 ≤ ite _ _ _
    split
    · exact Int.le_of_lt (Selector.select_eq_ok hsel).1
    · exact Int.le_refl 0
  | transfer hsel hdebited hcredited => exact ⟨Int.le_refl 0, Int.le_refl 0⟩

/-- **A transfer moves tokens within the supply**, be it to another account or to the same.
-/
theorem WellFormedView.supply_transfer {v : Holding → Ledger} {s : Selector}
    {sender recipient : Account} {token : TokenId} {amount : Decimal} {now : Epoch}
    {sel : Selection} {debited credited : Ledger} (hv : WellFormedView v) (hp : places ≤ 28)
    (hgrid : OnGrid token places v) (hamount : amount.OnGrid places)
    (hlt : supply v token < Decimal.gridLimit places)
    (hsel : s.selectFor .transfer token amount (v ⟨sender, token⟩).lots now = .ok sel)
    (hdebited : (v ⟨sender, token⟩).applyDeltas sel.deltas = .ok debited)
    (hcredited : (Function.update v ⟨sender, token⟩ debited ⟨recipient, token⟩).appendAll
      (sel.deltas.map (·.asCredit)) = .ok credited) :
    supply (Function.update (Function.update v ⟨sender, token⟩ debited) ⟨recipient, token⟩
        credited) token = supply v token ∧
      OnGrid token places
        (Function.update (Function.update v ⟨sender, token⟩ debited) ⟨recipient, token⟩
          credited) := by
  have hsource := hv.ledger ⟨sender, token⟩
  have hle : (v ⟨sender, token⟩).amount ≤ supply v token := hv.le_supply ⟨sender, token⟩
  obtain ⟨hsum, -, hds⟩ := Selector.amount_select hp (hgrid sender) hamount
    (Int.lt_of_le_of_lt hle hlt) hsel
  obtain ⟨htaken, hdebitedgrid⟩ := hsource.amount_applySelection hp (hgrid sender) hamount
    (by omega) hsel hdebited
  have hsupply := supply_update v ⟨sender, token⟩ debited token
  rw [if_pos rfl] at hsupply
  -- the credit goes to the view behind the debit, which has room for it
  have hbetween := hv.update (h := ⟨sender, token⟩) (g := debited)
    ((Ledger.token_applyDeltas hdebited).trans (hv.token _))
    (hsource.applySelection hsel hdebited)
  have hbetweengrid := hgrid.update (h := ⟨sender, token⟩) fun _ => hdebitedgrid
  have hless : (Function.update v ⟨sender, token⟩ debited ⟨recipient, token⟩).amount ≤
      supply (Function.update v ⟨sender, token⟩ debited) token :=
    hbetween.le_supply ⟨recipient, token⟩
  obtain ⟨hadded, hcreditedgrid⟩ :=
    (hbetween.ledger ⟨recipient, token⟩).toGuarded.amount_credit hp
      (hbetweengrid recipient) hds (by omega) hcredited
  refine ⟨?_, hbetweengrid.update fun _ => hcreditedgrid⟩
  rw [supply_update, if_pos rfl]
  omega

/-- **A request that succeeds** changes the supply by what it deposits and withdraws, and
what is on the grid stays on it. -/
theorem Moves.supply {v v' : Holding → Ledger} {r : Request} {x : Receipt} (hp : places ≤ 28)
    (hv : WellFormedView v) (hgrid : OnGrid t places v) (hr : r.OnGrid t places)
    (hlt : supply v t + depositedBy t r (.ok x) < Decimal.gridLimit places)
    (h : Moves v r x v') :
    supply v' t = supply v t + depositedBy t r (.ok x) - withdrawnBy t r (.ok x) ∧
      OnGrid t places v' := by
  cases h with
  | @load k ls g hg =>
    refine ⟨?_, hgrid.update fun ht => absurd ht hr⟩
    show _ = Book.supply v t + 0 - 0
    rw [supply_update, if_neg hr]
    omega
  | @deposit table feed k amount now l g hl hg =>
    have hadded : k.token = t → g.amount = (v k).amount + amount.quanta ∧ g.OnGrid places := by
      rintro rfl
      have hroom : Book.supply v k.token + ite (k.token = k.token) amount.quanta 0 < _ := hlt
      have hle := hv.le_supply k
      obtain ⟨-, hraw⟩ := rawAmount_newLot hl
      rw [if_pos rfl] at hroom
      rw [← hraw] at hroom ⊢
      exact (hv.ledger k).toGuarded.amount_append hp (hgrid k.account) (hraw ▸ hr rfl)
        (by omega) hg
    refine ⟨?_, hgrid.update fun hk => (hadded hk).2⟩
    show _ = Book.supply v t + ite (k.token = t) amount.quanta 0 - 0
    rw [supply_update]
    split
    · rename_i hk
      rw [(hadded hk).1]
      omega
    · omega
  | @withdraw s k amount now sel g hsel hg =>
    have htaken : k.token = t → g.amount = (v k).amount - amount.quanta ∧ g.OnGrid places := by
      rintro rfl
      have hroom : Book.supply v k.token + 0 < _ := hlt
      have hle := hv.le_supply k
      exact (hv.ledger k).amount_applySelection hp (hgrid k.account) (hr rfl) (by omega) hsel hg
    refine ⟨?_, hgrid.update fun hk => (htaken hk).2⟩
    show _ = Book.supply v t + 0 - ite (k.token = t) amount.quanta 0
    rw [supply_update]
    split
    · rename_i hk
      rw [(htaken hk).1]
      omega
    · omega
  | @transfer s sender recipient token amount now sel debited credited hsel hdebited hcredited =>
    have hroom : Book.supply v t + 0 < _ := hlt
    show _ = Book.supply v t + 0 - 0 ∧ _
    by_cases ht : token = t
    · subst ht
      rw [Int.add_zero, Int.sub_zero]
      exact hv.supply_transfer hp hgrid (hr rfl) (by omega) hsel hdebited hcredited
    · refine ⟨?_, (hgrid.update fun hk => absurd hk ht).update fun hk => absurd hk ht⟩
      rw [supply_update, if_neg ht, supply_update, if_neg ht]
      omega

/-! ## All requests -/

/-- What is deposited by a list of requests and withdrawn by it is not negative. -/
theorem WellFormed.totals_nonneg (t : TokenId) (rs : List Request) : ∀ {b : Book},
    b.WellFormed → 0 ≤ deposited t rs (b.run rs).2 ∧ 0 ≤ withdrawn t rs (b.run rs).2 := by
  induction rs with
  | nil => exact fun _ => ⟨Int.le_refl 0, Int.le_refl 0⟩
  | cons r rs ih =>
    intro b hb
    obtain ⟨hd, hw⟩ := ih (hb.perform r)
    have hstep : 0 ≤ depositedBy t r (b.perform r).2 ∧ 0 ≤ withdrawnBy t r (b.perform r).2 := by
      obtain ⟨failure, houtcome, -⟩ | ⟨x, houtcome, hmoves⟩ := perform_cases hb r
      · rw [houtcome, depositedBy_error, withdrawnBy_error]
        exact ⟨Int.le_refl 0, Int.le_refl 0⟩
      · rw [houtcome]
        exact hmoves.amounts_nonneg
    exact ⟨Int.add_nonneg hstep.1 hd, Int.add_nonneg hstep.2 hw⟩

/-- **A list of requests** changes the supply by what it deposits and withdraws. The
induction is on the list; what is on the grid and the room that is left for deposits are
what every request passes on. -/
theorem WellFormed.supply_run (hp : places ≤ 28) {rs : List Request} : ∀ {b : Book},
    b.WellFormed → OnGrid t places b.ledgerOrEmpty → (∀ r ∈ rs, r.OnGrid t places) →
      supply b.ledgerOrEmpty t + deposited t rs (b.run rs).2 < Decimal.gridLimit places →
        supply (b.run rs).1.ledgerOrEmpty t = supply b.ledgerOrEmpty t +
            deposited t rs (b.run rs).2 - withdrawn t rs (b.run rs).2 ∧
          OnGrid t places (b.run rs).1.ledgerOrEmpty := by
  induction rs with
  | nil =>
    intro b _ hgrid _ _
    refine ⟨?_, hgrid⟩
    show _ = _ + 0 - 0
    rw [Int.add_zero, Int.sub_zero]
    rfl
  | cons r rs ih =>
    intro b hb hgrid hrs hlt
    have hr := hrs r (List.mem_cons_self ..)
    have hrest := fun q hq => hrs q (List.mem_cons_of_mem r hq)
    have hdep : deposited t (r :: rs) (b.run (r :: rs)).2 =
        depositedBy t r (b.perform r).2 + deposited t rs ((b.perform r).1.run rs).2 := rfl
    have hwith : withdrawn t (r :: rs) (b.run (r :: rs)).2 =
        withdrawnBy t r (b.perform r).2 + withdrawn t rs ((b.perform r).1.run rs).2 := rfl
    -- later deposits take no room away from this one
    have hnonneg := ((hb.perform r).totals_nonneg t rs).1
    rw [hdep] at hlt ⊢
    rw [hwith]
    have hstep : supply (b.perform r).1.ledgerOrEmpty t = supply b.ledgerOrEmpty t +
          depositedBy t r (b.perform r).2 - withdrawnBy t r (b.perform r).2 ∧
        OnGrid t places (b.perform r).1.ledgerOrEmpty ∧ 0 ≤ withdrawnBy t r (b.perform r).2 := by
      obtain ⟨failure, houtcome, hview⟩ | ⟨x, houtcome, hmoves⟩ := perform_cases hb r
      · rw [houtcome, depositedBy_error, withdrawnBy_error, hview]
        exact ⟨by omega, hgrid, Int.le_refl 0⟩
      · rw [houtcome] at hlt ⊢
        obtain ⟨hsupply, hafter⟩ := hmoves.supply hp hb hgrid hr (by omega)
        exact ⟨hsupply, hafter, hmoves.amounts_nonneg.2⟩
    obtain ⟨hsupply, hafter, hw⟩ := hstep
    obtain ⟨hfinal, hfinalgrid⟩ := ih (hb.perform r) hafter hrest (by omega)
    refine ⟨?_, hfinalgrid⟩
    show supply ((b.perform r).1.run rs).1.ledgerOrEmpty t = _
    omega

/-- On a grid with room, every account has a balance, and together they are the supply. -/
theorem WellFormed.exists_balances {b : Book} (hb : b.WellFormed) (hp : places ≤ 28)
    (hgrid : OnGrid t places b.ledgerOrEmpty)
    (hlt : supply b.ledgerOrEmpty t < Decimal.gridLimit places) :
    ∃ held : Account → Decimal, (∀ a, b.balance ⟨a, t⟩ = .ok (held a)) ∧
      ∑ a, (held a).quanta = supply b.ledgerOrEmpty t := by
  have hone : ∀ a, ∃ c, b.balance ⟨a, t⟩ = .ok c ∧ c.quanta = (b.ledgerOrEmpty ⟨a, t⟩).amount := by
    intro a
    have hle := WellFormedView.le_supply hb ⟨a, t⟩
    rw [balance_eq]
    exact (hb.ledger ⟨a, t⟩).toGuarded.exists_totalAmount hp (hgrid a)
      (Int.lt_of_le_of_lt hle hlt)
  choose held hbalance hquanta using hone
  exact ⟨held, hbalance, Finset.sum_congr rfl fun a _ => hquanta a⟩

/-- **Supply is conserved.** Take a book in use and a list of further requests in which
no ledger of the token is loaded. If what is held of the token at the start and every
amount of it that is asked for are on a grid, and the grid has room for the supply at the
start and all that is deposited, then every account has a balance at the start and at the
end, and the exact sum of the balances at the end is that at the start, with what was
deposited and without what was withdrawn. -/
theorem supply_conserved (hp : places ≤ 28) (before rs : List Request) (t : TokenId)
    (hgrid : ∀ a, ∀ l ∈ (empty.run before).1.lots ⟨a, t⟩, l.rawAmount.OnGrid places)
    (hrs : ∀ r ∈ rs, r.OnGrid t places)
    (hlt : supply (empty.run before).1.ledgerOrEmpty t +
      deposited t rs ((empty.run before).1.run rs).2 < Decimal.gridLimit places) :
    ∃ start final : Account → Decimal,
      (∀ a, (empty.run before).1.balance ⟨a, t⟩ = .ok (start a)) ∧
      (∀ a, ((empty.run before).1.run rs).1.balance ⟨a, t⟩ = .ok (final a)) ∧
      ∑ a, (final a).quanta = ∑ a, (start a).quanta +
        deposited t rs ((empty.run before).1.run rs).2 -
        withdrawn t rs ((empty.run before).1.run rs).2 := by
  have hb := wellFormed_empty.run before
  obtain ⟨hd, hw⟩ := hb.totals_nonneg t rs
  obtain ⟨hsupply, hfinalgrid⟩ := hb.supply_run hp hgrid hrs hlt
  obtain ⟨start, hstart, hstartsum⟩ := hb.exists_balances hp hgrid (by omega)
  obtain ⟨final, hfinal, hfinalsum⟩ := (hb.run rs).exists_balances hp hfinalgrid (by omega)
  exact ⟨start, final, hstart, hfinal, by omega⟩

/-- Three tokens are deposited, one is moved to another account and two are withdrawn, of
which one is refused for want of tokens: the accounts hold two in the end. -/
theorem supply_conserved_three :
    let owner : Account := ⟨List.replicate 20 1, rfl⟩
    let s : Selector := ⟨.standard, Selector.standardAccrualRate⟩
    let rs : List Request :=
      [ .deposit .standard .none ⟨owner, TokenTable.beanId⟩ (.ofUInt32 3) ⟨1⟩,
        .transfer s owner .null TokenTable.beanId .one ⟨2⟩,
        .withdraw s ⟨owner, TokenTable.beanId⟩ .one ⟨2⟩,
        .withdraw s ⟨owner, TokenTable.beanId⟩ (.ofUInt32 3) ⟨2⟩ ]
    ∃ final : Account → Decimal,
      (∀ a, ((empty.run []).1.run rs).1.balance ⟨a, TokenTable.beanId⟩ = .ok (final a)) ∧
      ∑ a, (final a).quanta = 2 * tens 28 := by
  intro owner s rs
  have hempty : supply (empty.run []).1.ledgerOrEmpty TokenTable.beanId = 0 :=
    Finset.sum_const_zero
  have hdeposited : deposited TokenTable.beanId rs ((empty.run []).1.run rs).2 = 3 * tens 28 := by
    decide +kernel
  have hwithdrawn : withdrawn TokenTable.beanId rs ((empty.run []).1.run rs).2 = tens 28 := by
    decide +kernel
  have hwhole : ∀ n : UInt32, (Decimal.ofUInt32 n).OnGrid 0 := fun n => Int.dvd_mul_left _ _
  have hrs : ∀ r ∈ rs, r.OnGrid TokenTable.beanId 0 := by
    intro r hr
    simp only [rs, List.mem_cons, List.not_mem_nil, or_false] at hr
    rcases hr with rfl | rfl | rfl | rfl
    · exact fun _ => hwhole 3
    · exact fun _ => hwhole 1
    · exact fun _ => hwhole 1
    · exact fun _ => hwhole 3
  obtain ⟨start, final, hstart, hfinal, hsum⟩ := supply_conserved (Nat.zero_le 28) [] rs
    TokenTable.beanId (fun _ l hl => absurd hl List.not_mem_nil) hrs
    (by rw [hempty, hdeposited]; decide)
  have hnothing : ∑ a, (start a).quanta = 0 :=
    Finset.sum_eq_zero fun a _ => congrArg Decimal.quanta (Except.ok.inj (hstart a)).symm
  refine ⟨final, hfinal, ?_⟩
  rw [hsum, hnothing, hdeposited, hwithdrawn]
  decide

end Book

end StakeAccounting

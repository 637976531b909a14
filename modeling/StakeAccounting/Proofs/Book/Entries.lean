import Mathlib.Logic.Function.Basic
import StakeAccounting.Book.Request
import StakeAccounting.Proofs.Deposit

/-!
# What a request enters in the book

A request that succeeds enters a ledger at each holding that it names, and at no other;
a request that fails enters nothing. What is entered is said once, by `Enters`: each
constructor is a way to succeed, with every operation that has to succeed for it and the
book it leaves. A transfer to the same account is a case of its own, since it enters one
ledger, the one that was debited and then credited.

That a failure leaves the book as it was (`perform_of_error`) is plain for a change that is
worked out on the side. A deposit is not: it opens a ledger where there is none and adds
the lot to it afterwards, and there is no step that would close the ledger again. None is
needed. The lot of a deposit is valid, so no ledger refuses it, and what may still
overflow is the merge with an older lot of the same epoch – for which there has to be a
ledger, and then none was opened. So a request goes all the way or leaves no trace, on
every book whatever (`all_or_nothing`).
-/

namespace StakeAccounting

/-- **What is kept of a ledger** that is committed: the ledger, if it has lots. -/
def Ledger.kept (g : Ledger) : Option Ledger := if g.isEmpty then none else some g

namespace Book

/-! ## The primitive steps -/

theorem ledger?_put (b : Book) (h : Holding) (g : Ledger) :
    (b.put h g).ledger? = Function.update b.ledger? h (some g) := by
  funext k
  by_cases hk : k = h
  · rw [hk, Function.update_self, ledger?_put_self]
  · rw [Function.update_of_ne hk, ledger?_put_of_ne (Ne.symm hk)]

theorem ledger?_close (b : Book) (h : Holding) :
    (b.close h).ledger? = Function.update b.ledger? h none := by
  funext k
  by_cases hk : k = h
  · rw [hk, Function.update_self, ledger?_close_self]
  · rw [Function.update_of_ne hk, ledger?_close_of_ne (Ne.symm hk)]

/-- **Committing a ledger** changes the entry of its holding alone. -/
theorem ledger?_commit (b : Book) (h : Holding) (g : Ledger) :
    (b.commit h g).ledger? = Function.update b.ledger? h g.kept := by
  unfold commit Ledger.kept
  split
  · exact ledger?_close b h
  · exact ledger?_put b h g

/-- No ledger is opened where there is one. -/
theorem openLedger_of_some {b : Book} {h : Holding} {g : Ledger} (hg : b.ledger? h = some g) :
    b.openLedger h = b := by
  rw [openLedger, hg]

/-- A ledger that lists a lot is in the book. -/
theorem ledger?_of_get? {b : Book} {h : Holding} {e : Epoch} {l : Lot}
    (hl : (b.ledgerOrEmpty h).get? e = some l) : b.ledger? h = some (b.ledgerOrEmpty h) := by
  unfold ledgerOrEmpty at *
  cases hg : b.ledger? h with
  | some g => rfl
  | none =>
    rw [hg] at hl
    cases hl

/-! ## What is worked out on the side -/

section Enter

variable {α : Type} {b : Book} {x : Outcome (Book × α)}

theorem enter_of_ok {answer : α} (h : (b.enter x).2 = .ok answer) :
    x = .ok ((b.enter x).1, answer) := by
  cases x with
  | error failure => cases h
  | ok p =>
    cases h
    rfl

theorem enter_of_error {failure : Failure} (h : (b.enter x).2 = .error failure) :
    x = .error failure ∧ (b.enter x).1 = b := by
  cases x with
  | error cause =>
    cases h
    exact ⟨rfl, rfl⟩
  | ok p => cases h

end Enter

/-- A receipt is made of the answer, and there is none without. -/
theorem receipt_of_error {α : Type} {f : α → Receipt} {x : Book × Outcome α}
    {failure : Failure} (h : (receipt f x).2 = .error failure) : x.2 = .error failure := by
  obtain ⟨after, outcome⟩ := x
  cases outcome with
  | error cause =>
    cases h
    rfl
  | ok answer => cases h

/-! ## A request that succeeds -/

/-- **What a request that succeeds enters**: what it is answered with, and the book it
leaves. -/
inductive Enters (b : Book) : Request → Receipt → Book → Prop
  /-- A ledger of deposits takes the place of the one there is. -/
  | load {h : Holding} {ls : List Lot} {g : Ledger} (hg : Ledger.ofLots h.token ls = .ok g) :
      Enters b (.load h ls) .loaded (b.put h g)
  /-- The ledger with the lot of the amount. -/
  | deposit {table : TokenTable} {feed : PriceFeed} {h : Holding} {amount : Decimal}
      {now : Epoch} {l : Lot} {g : Ledger}
      (hl : Deposit.newLot table feed h.token amount now = .ok l)
      (hg : (b.ledgerOrEmpty h).append l = .ok g) :
      Enters b (.deposit table feed h amount now) (.deposited l) (b.put h g)
  /-- The ledger without the removals that are selected. -/
  | withdraw {s : Selector} {h : Holding} {amount : Decimal} {now : Epoch} {sel : Selection}
      {g : Ledger} (hsel : b.previewWithdrawal s h amount now = .ok sel)
      (hg : (b.ledgerOrEmpty h).applyDeltas sel.deltas = .ok g) :
      Enters b (.withdraw s h amount now) (.moved sel) (b.commit h g)
  /-- The ledger without the removals that are selected, and with their credits. -/
  | transferSelf {s : Selector} {owner : Account} {token : TokenId} {amount : Decimal}
      {now : Epoch} {sel : Selection} {held debited credited : Ledger}
      (hsel : s.selectFor .transfer token amount (b.lots ⟨owner, token⟩) now = .ok sel)
      (hheld : Ledger.ofLots token (b.lots ⟨owner, token⟩) = .ok held)
      (hdebited : held.applyDeltas sel.deltas = .ok debited)
      (hcredited : debited.appendAll (sel.deltas.map (·.asCredit)) = .ok credited) :
      Enters b (.transfer s owner owner token amount now) (.moved sel)
        (b.commit ⟨owner, token⟩ credited)
  /-- The sender's ledger without the removals that are selected, and the recipient's with
  their credits. -/
  | transfer {s : Selector} {sender recipient : Account} {token : TokenId} {amount : Decimal}
      {now : Epoch} {sel : Selection} {held debited credited : Ledger}
      (hne : sender ≠ recipient)
      (hsel : s.selectFor .transfer token amount (b.lots ⟨sender, token⟩) now = .ok sel)
      (hheld : Ledger.ofLots token (b.lots ⟨sender, token⟩) = .ok held)
      (hdebited : held.applyDeltas sel.deltas = .ok debited)
      (hcredited : (b.ledgerOrEmpty ⟨recipient, token⟩).appendAll
        (sel.deltas.map (·.asCredit)) = .ok credited) :
      Enters b (.transfer s sender recipient token amount now) (.moved sel)
        ((b.commit ⟨sender, token⟩ debited).commit ⟨recipient, token⟩ credited)

variable {b : Book} {r : Request}

/-- **A request that succeeds** enters what it is meant to. -/
theorem enters_of_ok {x : Receipt} (h : (b.perform r).2 = .ok x) :
    Enters b r x (b.perform r).1 := by
  cases r with
  | load k ls =>
    obtain ⟨answer, hanswer, rfl⟩ := Outcome.map_eq_ok.mp h
    obtain ⟨g, hg, hafter⟩ := Outcome.bind_eq_ok.mp (enter_of_ok hanswer)
    obtain ⟨hbook, -⟩ := Prod.ext_iff.mp (Except.ok.inj hafter)
    exact hbook ▸ Enters.load hg
  | deposit table feed k amount now =>
    obtain ⟨l, hanswer, rfl⟩ := Outcome.map_eq_ok.mp h
    show Enters b _ _ (b.deposit table feed k amount now).1
    unfold deposit at hanswer ⊢
    cases hl : Deposit.newLot table feed k.token amount now with
    | error failure =>
      rw [hl] at hanswer
      cases hanswer
    | ok made =>
      rw [hl] at hanswer
      obtain ⟨g, hg, hafter⟩ := Outcome.bind_eq_ok.mp (enter_of_ok hanswer)
      obtain ⟨hbook, rfl⟩ := Prod.ext_iff.mp (Except.ok.inj hafter)
      exact hbook ▸ Enters.deposit hl hg
  | withdraw s k amount now =>
    obtain ⟨sel, hanswer, rfl⟩ := Outcome.map_eq_ok.mp h
    obtain ⟨chosen, hsel, hafter⟩ := Outcome.bind_eq_ok.mp (enter_of_ok hanswer)
    obtain ⟨g, hg, hafter⟩ := Outcome.bind_eq_ok.mp hafter
    obtain ⟨hbook, rfl⟩ := Prod.ext_iff.mp (Except.ok.inj hafter)
    exact hbook ▸ Enters.withdraw hsel hg
  | transfer s sender recipient token amount now =>
    obtain ⟨sel, hanswer, rfl⟩ := Outcome.map_eq_ok.mp h
    obtain ⟨chosen, hsel, hafter⟩ := Outcome.bind_eq_ok.mp (enter_of_ok hanswer)
    obtain ⟨held, hheld, hafter⟩ := Outcome.bind_eq_ok.mp hafter
    obtain ⟨debited, hdebited, hafter⟩ := Outcome.bind_eq_ok.mp hafter
    by_cases hself : sender = recipient
    · subst hself
      rw [if_pos rfl] at hafter
      obtain ⟨credited, hcredited, hafter⟩ := Outcome.bind_eq_ok.mp hafter
      obtain ⟨hbook, rfl⟩ := Prod.ext_iff.mp (Except.ok.inj hafter)
      exact hbook ▸ Enters.transferSelf hsel hheld hdebited hcredited
    · rw [if_neg hself] at hafter
      obtain ⟨credited, hcredited, hafter⟩ := Outcome.bind_eq_ok.mp hafter
      obtain ⟨hbook, rfl⟩ := Prod.ext_iff.mp (Except.ok.inj hafter)
      exact hbook ▸ Enters.transfer hself hsel hheld hdebited hcredited

/-- **A transfer that succeeds** enters what it is meant to. -/
theorem enters_of_transfer {s : Selector} {sender recipient : Account} {token : TokenId}
    {amount : Decimal} {now : Epoch} {sel : Selection}
    (h : (b.transfer s sender recipient token amount now).2 = .ok sel) :
    Enters b (.transfer s sender recipient token amount now) (.moved sel)
      (b.transfer s sender recipient token amount now).1 :=
  enters_of_ok (Outcome.map_eq_ok.mpr ⟨sel, h, rfl⟩)

/-- **A ledger that is not named** is as it was. -/
theorem Enters.ledger?_of_not_mem {x : Receipt} {after : Book} (h : Enters b r x after)
    {k : Holding} (hk : k ∉ r.holdings) : after.ledger? k = b.ledger? k := by
  cases h with
  | load hg =>
    rw [ledger?_put, Function.update_of_ne (List.ne_of_not_mem_cons hk)]
  | deposit hl hg =>
    rw [ledger?_put, Function.update_of_ne (List.ne_of_not_mem_cons hk)]
  | withdraw hsel hg =>
    rw [ledger?_commit, Function.update_of_ne (List.ne_of_not_mem_cons hk)]
  | transferSelf hsel hheld hdebited hcredited =>
    rw [ledger?_commit, Function.update_of_ne (List.ne_of_not_mem_cons hk)]
  | transfer hne hsel hheld hdebited hcredited =>
    have hsource := List.ne_of_not_mem_cons hk
    have htarget := List.ne_of_not_mem_cons (List.not_mem_of_not_mem_cons hk)
    rw [ledger?_commit, Function.update_of_ne htarget, ledger?_commit,
      Function.update_of_ne hsource]

/-! ## A request that fails -/

/-- A deposit that fails opens no ledger. -/
theorem deposit_of_error {table : TokenTable} {feed : PriceFeed} {h : Holding}
    {amount : Decimal} {now : Epoch} {failure : Failure}
    (hfail : (b.deposit table feed h amount now).2 = .error failure) :
    (b.deposit table feed h amount now).1 = b := by
  unfold deposit at hfail ⊢
  cases hl : Deposit.newLot table feed h.token amount now with
  | error cause => rfl
  | ok l =>
    rw [hl] at hfail
    obtain ⟨hadd, hafter⟩ := enter_of_error hfail
    obtain happend | ⟨g, -, hput⟩ := Outcome.bind_eq_error.mp hadd
    · -- the lot is valid, so it was to be merged, and the ledger was there before
      obtain ⟨-, x, hx⟩ := Ledger.append_eq_error (Deposit.valid_newLot hl) happend
      exact hafter.trans (openLedger_of_some (ledger?_of_get? hx))
    · cases hput

/-- **A request that fails leaves the book as it was.** -/
theorem perform_of_error {failure : Failure} (h : (b.perform r).2 = .error failure) :
    (b.perform r).1 = b := by
  cases r with
  | load k ls => exact (enter_of_error (receipt_of_error h)).2
  | deposit table feed k amount now => exact deposit_of_error (receipt_of_error h)
  | withdraw s k amount now => exact (enter_of_error (receipt_of_error h)).2
  | transfer s sender recipient token amount now =>
    exact (enter_of_error (receipt_of_error h)).2

/-- **All or nothing.** A request that is refused – for the amount, the token, the price, a
lot, the balance – leaves the whole book as it was: every ledger, and the set of
holdings that have one. A request that succeeds leaves every ledger that it does not name
as it was. -/
theorem all_or_nothing (b : Book) (r : Request) :
    (∀ cause, (b.perform r).2 = .error (.refused cause) → (b.perform r).1 = b) ∧
      ∀ x, (b.perform r).2 = .ok x → ∀ h, h ∉ r.holdings →
        (b.perform r).1.ledger? h = b.ledger? h :=
  ⟨fun _ h => perform_of_error h, fun _ h _ hh => (enters_of_ok h).ledger?_of_not_mem hh⟩

/-- Two lots are to be moved while accrual runs below zero. On the newer one nothing has
accrued yet, and it is taken; the older one is refused, since what accrued on it would be
given back. Nothing of the first step is left. At the rate of the protocol the transfer
goes through, and the sender's other token stays where it is. -/
theorem all_or_nothing_transfer :
    let owner : Account := ⟨List.replicate 20 1, rfl⟩
    let held : Holding := ⟨owner, TokenTable.beanId⟩
    let other : Holding := ⟨owner, TokenTable.beanPoolId⟩
    let b := (empty.run
      [ .deposit .standard .none held .one ⟨1⟩, .deposit .standard .none held .one ⟨2⟩,
        .deposit .standard (.flat .one) other .one ⟨2⟩ ]).1
    let transferAt : Decimal → Request := fun rate =>
      .transfer ⟨.standard, rate⟩ owner .null TokenTable.beanId (.ofUInt32 2) ⟨2⟩
    ((b.perform (transferAt (-.one))).2 = Outcome.refuseLot ⟨1⟩ .notARemoval ∧
        (b.perform (transferAt (-.one))).1 = b) ∧
      (∃ x, (b.perform (transferAt Selector.standardAccrualRate)).2 = .ok x) ∧
        (b.perform (transferAt Selector.standardAccrualRate)).1.ledger? other = b.ledger? other ∧
        (b.ledger? other).isSome = true := by
  intro owner held other b transferAt
  have hrefused : (b.perform (transferAt (-.one))).2 = Outcome.refuseLot ⟨1⟩ .notARemoval := by
    decide +kernel
  obtain ⟨x, hx⟩ : ∃ x, (b.perform (transferAt Selector.standardAccrualRate)).2 = .ok x :=
    Outcome.exists_ok_of_answer? (by decide +kernel)
  exact ⟨⟨hrefused, (all_or_nothing b _).1 _ hrefused⟩, ⟨x, hx⟩,
    (all_or_nothing b _).2 x hx other (by decide +kernel), by decide +kernel⟩

end Book

end StakeAccounting

import StakeAccounting.Account
import StakeAccounting.Deposit
import StakeAccounting.Selection

/-!
# The account book

The **book** holds the ledgers of all accounts, one for each account and token,
in the order of their holdings – by account, then by token. Depositing,
withdrawing and transferring go through it.

A change is worked out on the side and entered when nothing can fail any more,
so each operation answers with the book as it is afterwards, whether it succeeded
or not, and with its outcome. A withdrawal or a transfer that leaves a ledger
without lots closes it. Only `Book.deposit` enters something early: it opens the
ledger before it adds the lot. Only `Book.load` enters a ledger as it is given,
without lots if there are none.

A book is read through `Book.ledger?`; `ledger?_put_self`, `ledger?_put_of_ne`
and their companions for `close` say what the two primitive steps do to it.
-/

namespace StakeAccounting

/-- **A holding**: a token in an account. -/
structure Holding where
  /-- The account. -/
  account : Account
  /-- The token. -/
  token : TokenId
deriving DecidableEq

instance : Ord Holding where
  compare h k := (compare h.account k.account).then (compare h.token k.token)

/-- **The account book**: the ledgers of all holdings. -/
structure Book where
  /-- The ledgers, in the order of their holdings. -/
  ledgers : List (Holding × Ledger)
deriving DecidableEq

namespace Book

/-- The book without ledgers. -/
def empty : Book := ⟨[]⟩

instance : Inhabited Book := ⟨empty⟩

/-- **The ledger of a holding**, if there is one. -/
def ledger? (b : Book) (h : Holding) : Option Ledger :=
  (b.ledgers.find? fun entry => entry.1 == h).map (·.2)

/-- The ledgers with one put in its place, instead of the one of the same
holding if there is one. -/
def putEntry (h : Holding) (g : Ledger) : List (Holding × Ledger) → List (Holding × Ledger)
  | [] => [(h, g)]
  | x :: xs =>
    if x.1 = h then (h, g) :: xs
    else if (compare h x.1).isLT then (h, g) :: x :: xs
    else x :: putEntry h g xs

/-- The book with a ledger put in its place. -/
def put (b : Book) (h : Holding) (g : Ledger) : Book := ⟨putEntry h g b.ledgers⟩

/-- The book without the ledger of a holding. -/
def close (b : Book) (h : Holding) : Book := ⟨b.ledgers.filter fun entry => entry.1 != h⟩

/-- The ledger of a holding, without lots where there is none. -/
def ledgerOrEmpty (b : Book) (h : Holding) : Ledger := (b.ledger? h).getD (.empty h.token)

/-- The lots of a holding. -/
def lots (b : Book) (h : Holding) : List Lot := (b.ledgerOrEmpty h).lots

/-- **The balance of a holding**: the sum of its amounts. -/
def balance (b : Book) (h : Holding) : Outcome Decimal :=
  match b.ledger? h with
  | some g => g.totalAmount
  | none => pure .zero

/-- The tokens an account has ledgers of, in their order. -/
def tokensOf (b : Book) (a : Account) : List TokenId :=
  (b.ledgers.filter fun entry => entry.1.account == a).map (·.1.token)

/-- Enter a ledger that was changed; without lots, it is closed. -/
def commit (b : Book) (h : Holding) (g : Ledger) : Book :=
  if g.isEmpty then b.close h else b.put h g

/-- Open a ledger for a holding that has none. -/
def openLedger (b : Book) (h : Holding) : Book :=
  match b.ledger? h with
  | some _ => b
  | none => b.put h (.empty h.token)

/-- The book after a change that was worked out on the side: the new one if
that succeeded, and else the old one. -/
def enter {α : Type} (b : Book) : Outcome (Book × α) → Book × Outcome α
  | .ok (after, answer) => (after, .ok answer)
  | .error failure => (b, .error failure)

/-! ## Changing the book -/

/-- **Load a ledger** from a list of lots, in place of the one there is. -/
def load (b : Book) (h : Holding) (ls : List Lot) : Book × Outcome Unit :=
  b.enter do
    let g ← Ledger.ofLots h.token ls
    pure (b.put h g, ())

/-- **Deposit an amount**, and answer with the lot it makes. -/
def deposit (b : Book) (table : TokenTable) (feed : PriceFeed) (h : Holding) (amount : Decimal)
    (now : Epoch) : Book × Outcome Lot :=
  match Deposit.newLot table feed h.token amount now with
  | .error failure => (b, .error failure)
  | .ok l =>
    (b.openLedger h).enter do
      let g ← (b.ledgerOrEmpty h).append l
      pure (b.put h g, l)

/-- What a withdrawal would take, newest lots first. -/
def previewWithdrawal (b : Book) (s : Selector) (h : Holding) (amount : Decimal) (now : Epoch) :
    Outcome Selection :=
  s.selectFor .withdrawal h.token amount (b.lots h) now

/-- **Withdraw an amount**, and answer with the selection that was taken. -/
def withdraw (b : Book) (s : Selector) (h : Holding) (amount : Decimal) (now : Epoch) :
    Book × Outcome Selection :=
  b.enter do
    let selection ← b.previewWithdrawal s h amount now
    let g ← (b.ledgerOrEmpty h).applyDeltas selection.deltas
    pure (b.commit h g, selection)

/-- **Transfer an amount** to another account, and answer with the selection
that was moved. The lots keep their epochs, so what accrues on them goes on as it
was. A transfer to the same account credits the ledger that was debited. -/
def transfer (b : Book) (s : Selector) (sender recipient : Account) (token : TokenId)
    (amount : Decimal) (now : Epoch) : Book × Outcome Selection :=
  let source : Holding := ⟨sender, token⟩
  let target : Holding := ⟨recipient, token⟩
  b.enter do
    let selection ← s.selectFor .transfer token amount (b.lots source) now
    let credits := selection.deltas.map (·.asCredit)
    let held ← Ledger.ofLots token (b.lots source)
    let debited ← held.applyDeltas selection.deltas
    if sender = recipient then do
      let credited ← debited.appendAll credits
      pure (b.commit source credited, selection)
    else do
      let credited ← (b.ledgerOrEmpty target).appendAll credits
      pure ((b.commit source debited).commit target credited, selection)

/-! ## Reading what was put -/

/-- A ledger that is put is there. -/
@[simp] theorem ledger?_put_self (b : Book) (h : Holding) (g : Ledger) :
    (b.put h g).ledger? h = some g := by
  unfold ledger? put
  dsimp only
  induction b.ledgers with
  | nil => simp [putEntry]
  | cons x xs ih =>
    unfold putEntry
    split
    · simp
    · split
      · simp
      · rename_i hx _
        rw [List.find?_cons_of_neg (by simpa using hx), ih]

/-- Putting a ledger moves no ledger of another holding. -/
theorem ledger?_put_of_ne {b : Book} {h k : Holding} {g : Ledger} (hk : h ≠ k) :
    (b.put h g).ledger? k = b.ledger? k := by
  unfold ledger? put
  dsimp only
  induction b.ledgers with
  | nil => simp [putEntry, hk]
  | cons x xs ih =>
    unfold putEntry
    split
    · rename_i hx
      simp [hk, hx]
    · split
      · simp [hk]
      · simp only [List.find?_cons]
        split
        · rfl
        · exact ih

/-- A ledger that is closed is gone. -/
@[simp] theorem ledger?_close_self (b : Book) (h : Holding) : (b.close h).ledger? h = none := by
  unfold ledger? close
  simp

/-- Closing a ledger moves no ledger of another holding. -/
theorem ledger?_close_of_ne {b : Book} {h k : Holding} (hk : h ≠ k) :
    (b.close h).ledger? k = b.ledger? k := by
  unfold ledger? close
  dsimp only
  induction b.ledgers with
  | nil => rfl
  | cons x xs ih =>
    by_cases hx : x.1 = h
    · have hhk : (h == k) = false := beq_eq_false_iff_ne.mpr hk
      simp only [List.find?_cons, List.filter_cons, hx, bne_self_eq_false, Bool.false_eq_true,
        if_false, ih, hhk]
    · simp only [List.filter_cons, bne_iff_ne, ne_eq, hx, not_false_eq_true, if_true,
        List.find?_cons]
      split
      · rfl
      · exact ih

end Book

end StakeAccounting

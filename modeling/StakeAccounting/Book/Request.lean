import StakeAccounting.Book
import StakeAccounting.History

/-!
# Requests to the book

Everything that changes the book is a **request**: to load a ledger, to deposit,
to withdraw or to transfer. A request carries what it is decided by – the table
and the feed of a deposit, the selector of a withdrawal –, so it has one outcome
on one book. `Book.run` goes through a list of requests and records what became of
each; a book that can arise in use is one behind such a list, from
`Book.empty`.
-/

namespace StakeAccounting

namespace Book

/-- **A request to the book.** -/
inductive Request where
  /-- Load a ledger from a list of lots. -/
  | load (holding : Holding) (lots : List Lot)
  /-- Deposit an amount at an epoch. -/
  | deposit (table : TokenTable) (feed : PriceFeed) (holding : Holding) (amount : Decimal)
      (now : Epoch)
  /-- Withdraw an amount at an epoch. -/
  | withdraw (selector : Selector) (holding : Holding) (amount : Decimal) (now : Epoch)
  /-- Transfer an amount at an epoch. -/
  | transfer (selector : Selector) (sender recipient : Account) (token : TokenId)
      (amount : Decimal) (now : Epoch)

/-- **What the book answers with.** -/
inductive Receipt where
  /-- The ledger was loaded. -/
  | loaded
  /-- The lot that was deposited. -/
  | deposited (lot : Lot)
  /-- The selection that was withdrawn or transferred. -/
  | moved (selection : Selection)
deriving DecidableEq

/-- The holdings a request names. -/
def Request.holdings : Request → List Holding
  | load h _ => [h]
  | deposit _ _ h _ _ => [h]
  | withdraw _ h _ _ => [h]
  | transfer _ sender recipient token _ _ => [⟨sender, token⟩, ⟨recipient, token⟩]

/-- The book with a receipt made of the answer. -/
def receipt {α : Type} (f : α → Receipt) (x : Book × Outcome α) : Book × Outcome Receipt :=
  (x.1, f <$> x.2)

/-- **Perform a request**: the book afterwards, and what became of the
request. -/
def perform (b : Book) : Request → Book × Outcome Receipt
  | .load h ls => receipt (fun _ => .loaded) (b.load h ls)
  | .deposit table feed h amount now => receipt .deposited (b.deposit table feed h amount now)
  | .withdraw s h amount now => receipt .moved (b.withdraw s h amount now)
  | .transfer s sender recipient token amount now =>
    receipt .moved (b.transfer s sender recipient token amount now)

/-- **Perform the requests of a list**, in order. -/
def run : Book → List Request → Book × List (Outcome Receipt) := History.run perform

end Book

end StakeAccounting

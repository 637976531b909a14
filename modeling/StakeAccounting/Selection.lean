import StakeAccounting.Ledger
import StakeAccounting.Selection.Order
import StakeAccounting.Token

/-!
# Selecting lots

To take an amount of a token from an account, lots are **selected** to give it
up. They are drawn in the order of the purpose until the request is covered, each
giving up as much as it has or as is still needed. A lot that gives up only part
of its amount gives up the same part of its base value and its yield rate, and
the stake weight that the token grants for that base value; with it goes the
stake weight that accrued on the yield rate. A lot that gives up its whole amount
gives up exactly what it stores, so that no fraction is left behind.

Selecting changes nothing: the answer is a `Selection`, with one removal for
every lot that was drawn on, in the order they were drawn, and their sums. What
is checked first, and in this order, is the request, the token, the snapshot of
lots, their total, and whether it suffices.
-/

namespace StakeAccounting

/-- The sums of the changes of a selection. -/
structure DeltaTotals where
  /-- The sum of the changes of the amounts. -/
  amount : Decimal
  /-- The sum of the changes of the base values. -/
  baseValue : Decimal
  /-- The sum of the changes of the yield rates. -/
  yieldRate : Decimal
  /-- The sum of the changes of the stake weights of both kinds. -/
  stakeWeight : Decimal
deriving DecidableEq

namespace DeltaTotals

/-- The sums of no changes. -/
def zero : DeltaTotals := ⟨.zero, .zero, .zero, .zero⟩

/-- The sums with one more change. -/
def add (t : DeltaTotals) (d : LotDelta) : Outcome DeltaTotals := do
  let amount ← t.amount.plus d.amount
  let baseValue ← t.baseValue.plus d.baseValue
  let yieldRate ← t.yieldRate.plus d.yieldRate
  let stakeWeight ← t.stakeWeight.plus d.stakeWeight
  pure ⟨amount, baseValue, yieldRate, stakeWeight⟩

end DeltaTotals

/-- **A selection**: what to remove, from which lots. -/
structure Selection where
  /-- The token that was asked for. -/
  token : TokenId
  /-- The amount that was asked for. -/
  requested : Decimal
  /-- The sums over the removals. -/
  total : DeltaTotals
  /-- One removal for each lot drawn on, in the order they were drawn. -/
  deltas : List LotDelta
deriving DecidableEq

/-- The epochs of the lots drawn on, in that order. -/
def Selection.epochs (s : Selection) : List Epoch := s.deltas.map (·.epoch)

/-- **A selector**: the table and the accrual rate selections are made with. -/
structure Selector where
  /-- The tokens there are. -/
  table : TokenTable
  /-- The stake weight that accrues per epoch on a unit of yield rate. -/
  accrualRate : Decimal

namespace Selector

/-- The accrual rate of the protocol, one ten-thousandth. -/
def standardAccrualRate : Decimal := .basisPoints 1

/-- **Whether the lots make a snapshot** at `now`: each is well-formed, of no
epoch that lies ahead, and of no epoch among those `seen` before. -/
def checkSnapshot (now : Epoch) (seen : List Epoch) : List Lot → Outcome Unit
  | [] => .ok ()
  | l :: ls => do
    l.check
    if now < l.epoch then Outcome.refuseLot l.epoch (.notYetCreated now)
    else if l.epoch ∈ seen then Outcome.refuseLot l.epoch .repeatedEpoch
    else checkSnapshot now (l.epoch :: seen) ls

/-- **The sum of the amounts**; the lot it leaves the range at is refused. -/
def availableAmount (ls : List Lot) : Outcome Decimal :=
  ls.foldlM
    (fun sum l => Outcome.orRefuse (.malformedLot l.epoch .totalOutOfRange)
      (sum.add? l.rawAmount))
    .zero

/-- A value of a split that has to be in range. -/
def inSplit (l : Lot) : Option Decimal → Outcome Decimal :=
  Outcome.orRefuse (.malformedLot l.epoch .splitOutOfRange)

/-- **The share of a lot that goes with part of its amount**: base value, yield
rate and stored stake weight. The whole amount takes what is stored; a part takes
its fraction of base value and yield rate, and the stake weight granted for that
base value. -/
def shareOf (t : Token) (l : Lot) (consumed : Decimal) :
    Outcome (Decimal × Decimal × Decimal) :=
  if consumed.Same l.rawAmount then pure (l.baseValue, l.yieldRate, l.stakeWeight)
  else do
    let fraction ← inSplit l (consumed.div? l.rawAmount)
    let baseValue ← inSplit l (fraction.mul? l.baseValue)
    let yieldRate ← inSplit l (fraction.mul? l.yieldRate)
    let stakeWeight ← inSplit l (t.stakePerBase.mul? baseValue)
    pure (baseValue, yieldRate, stakeWeight)

/-- **The removal of part of a lot's amount.** -/
def split (s : Selector) (t : Token) (now : Epoch) (l : Lot) (consumed : Decimal) :
    Outcome LotDelta := do
  let (baseValue, yieldRate, baseStakeWeight) ← shareOf t l consumed
  let grown ← inSplit l (yieldRate.mul? (.ofUInt32 (now.elapsedSince l.epoch)))
  let accrued ← inSplit l (grown.mul? s.accrualRate)
  let stakeWeight ← inSplit l (baseStakeWeight.add? accrued)
  pure ⟨l.epoch, -consumed, -baseValue, -yieldRate, -baseStakeWeight, -accrued, -stakeWeight⟩

/-- **Draw an amount from lots in order**, adding to the sums, until nothing
remains to be drawn. -/
def draw (s : Selector) (t : Token) (now : Epoch) :
    Decimal → DeltaTotals → List Lot → Outcome (DeltaTotals × List LotDelta)
  | _, total, [] => pure (total, [])
  | remaining, total, l :: ls => do
    let consumed := l.rawAmount.min remaining
    let d ← s.split t now l consumed
    let total ← total.add d
    let remaining ← remaining.minus consumed
    if remaining.isZero then pure (total, [d])
    else do
      let (total, ds) ← s.draw t now remaining total ls
      pure (total, d :: ds)

/-- **Select lots to give up an amount of a token.** -/
def select (s : Selector) (order : SelectionOrder) (id : TokenId) (requested : Decimal)
    (ls : List Lot) (now : Epoch) : Outcome Selection :=
  if requested ≤ .zero then Outcome.refuse (.invalidAmount requested)
  else do
    let t ← s.table.get id
    checkSnapshot now [] ls
    let available ← availableAmount ls
    if available < requested then Outcome.refuse (.insufficientBalance requested available)
    else do
      let ordered ← order.arrange ls
      let (total, deltas) ← s.draw t now requested .zero ordered
      pure ⟨id, requested, total, deltas⟩

/-- Select lots for a purpose, in its order. -/
def selectFor (s : Selector) (purpose : Purpose) (id : TokenId) (requested : Decimal)
    (ls : List Lot) (now : Epoch) : Outcome Selection :=
  s.select purpose.order id requested ls now

end Selector

end StakeAccounting

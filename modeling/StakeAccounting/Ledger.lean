import StakeAccounting.Lot

/-!
# Ledgers

A **ledger** holds the lots of one token in one account, in ascending order of
their epochs and at most one to an epoch. Three operations change it.
`Ledger.append` adds a deposit, merging it into the lot of its epoch if there is
one. `Ledger.remove` takes a removal from one lot and drops the lot when its
amount reaches exactly zero, whatever is left of its shares.
`Ledger.applyDeltas` does so for a whole list of removals or not at all.

A ledger is read through `Ledger.get?`; `get?_put_self`, `get?_put_of_ne` and
their companions for `erase` say what the two primitive steps do to it.
-/

namespace StakeAccounting

/-- **A ledger**: the lots of one token in one account. -/
structure Ledger where
  /-- The token all lots are of. -/
  token : TokenId
  /-- The lots, in ascending order of their epochs. -/
  lots : List Lot
deriving DecidableEq

/-- The sums over a ledger at an epoch. -/
structure LedgerTotals where
  /-- The sum of the amounts. -/
  rawAmount : Decimal
  /-- The sum of the base values. -/
  baseValue : Decimal
  /-- The sum of the yield rates. -/
  yieldRate : Decimal
  /-- The sum of the stake weights granted for the deposits. -/
  baseStakeWeight : Decimal
  /-- The sum of the stake weights accrued since the deposits. -/
  accruedStakeWeight : Decimal
deriving DecidableEq

namespace LedgerTotals

/-- The sums over no lots. -/
def zero : LedgerTotals := ⟨.zero, .zero, .zero, .zero, .zero⟩

/-- The stake weight of both kinds. -/
def stakeWeight (t : LedgerTotals) : Outcome Decimal :=
  t.baseStakeWeight.plus t.accruedStakeWeight

/-- The sums with one more lot. -/
def add (now : Epoch) (accrualRate : Decimal) (t : LedgerTotals) (l : Lot) :
    Outcome LedgerTotals := do
  let rawAmount ← t.rawAmount.plus l.rawAmount
  let baseValue ← t.baseValue.plus l.baseValue
  let yieldRate ← t.yieldRate.plus l.yieldRate
  let baseStakeWeight ← t.baseStakeWeight.plus l.stakeWeight
  let accrued ← l.accruedStakeWeight now accrualRate
  let accruedStakeWeight ← t.accruedStakeWeight.plus accrued
  pure ⟨rawAmount, baseValue, yieldRate, baseStakeWeight, accruedStakeWeight⟩

end LedgerTotals

namespace Ledger

/-- The ledger without lots. -/
def empty (token : TokenId) : Ledger := ⟨token, []⟩

/-- Whether there are no lots. -/
def isEmpty (g : Ledger) : Bool := g.lots.isEmpty

/-- How many lots there are. -/
def size (g : Ledger) : Nat := g.lots.length

/-- **The lot of an epoch.** -/
def get? (g : Ledger) (e : Epoch) : Option Lot := g.lots.find? fun l => l.epoch == e

/-- The lots with one put in its place, instead of the one of the same epoch if
there is one. -/
def putLot (l : Lot) : List Lot → List Lot
  | [] => [l]
  | x :: xs =>
    if l.epoch < x.epoch then l :: x :: xs
    else if l.epoch = x.epoch then l :: xs
    else x :: putLot l xs

/-- The ledger with a lot put in its place. -/
def put (g : Ledger) (l : Lot) : Ledger := { g with lots := putLot l g.lots }

/-- The ledger without the lot of an epoch. -/
def erase (g : Ledger) (e : Epoch) : Ledger :=
  { g with lots := g.lots.filter fun l => l.epoch != e }

/-- The sum of the amounts. -/
def totalAmount (g : Ledger) : Outcome Decimal := Decimal.sum (g.lots.map (·.rawAmount))

/-- **The sums over the ledger**, with the stake weight accrued up to `now`. -/
def totals (g : Ledger) (now : Epoch) (accrualRate : Decimal) : Outcome LedgerTotals :=
  g.lots.foldlM (LedgerTotals.add now accrualRate) .zero

/-! ## Changing a ledger -/

/-- **Add a deposit.** The lot has to be well-formed; a lot of the same epoch
is merged with it. -/
def append (g : Ledger) (l : Lot) : Outcome Ledger := do
  l.check
  match g.get? l.epoch with
  | some existing => do
    let merged ← existing.merge l
    pure (g.put merged)
  | none => pure (g.put l)

/-- Add the deposits of a list, in order. -/
def appendAll (g : Ledger) (ls : List Lot) : Outcome Ledger := ls.foldlM append g

/-- **The ledger of a list of deposits.** -/
def ofLots (token : TokenId) (ls : List Lot) : Outcome Ledger := (empty token).appendAll ls

/-- What is left of a lot after a removal, part by part and signed. -/
def rest (l : Lot) (d : LotDelta) : Outcome Lot := do
  let rawAmount ← l.rawAmount.plus d.amount
  let baseValue ← l.baseValue.plus d.baseValue
  let stakeWeight ← l.stakeWeight.plus d.baseStakeWeight
  let yieldRate ← l.yieldRate.plus d.yieldRate
  pure ⟨l.epoch, rawAmount, baseValue, stakeWeight, yieldRate⟩

/-- **Settle a lot with what is left of it.** An overdrawn amount is refused;
an amount of zero drops the lot, whatever its shares; otherwise an overdrawn
stake weight or yield rate is refused. -/
def settle (g : Ledger) (left : Lot) : Outcome Ledger :=
  if left.rawAmount < .zero then
    Outcome.refuseLot left.epoch (.amountOverdrawn left.rawAmount)
  else if left.rawAmount.isZero then pure (g.erase left.epoch)
  else if left.stakeWeight < .zero then
    Outcome.refuseLot left.epoch (.shareOverdrawn .stakeWeight left.stakeWeight)
  else if left.yieldRate < .zero then
    Outcome.refuseLot left.epoch (.shareOverdrawn .yieldRate left.yieldRate)
  else pure (g.put left)

/-- **Take a removal from the lot of an epoch.** Of the stake weight only what
the lot stores is taken. -/
def remove (g : Ledger) (e : Epoch) (d : LotDelta) : Outcome Ledger :=
  if d.isRemoval then
    match g.get? e with
    | none => Outcome.refuseLot e .noLot
    | some l => do
      let left ← rest l d
      g.settle left
  else Outcome.refuseLot e .notARemoval

/-- **Take every removal of a list**, each from the lot of its own epoch; if
one fails, the ledger stays as it was. -/
def applyDeltas (g : Ledger) (ds : List LotDelta) : Outcome Ledger :=
  ds.foldlM (fun g d => g.remove d.epoch d) g

/-! ## Reading what was put -/

/-- **Sorted**: the epochs of the lots ascend strictly. -/
def Sorted (g : Ledger) : Prop := g.lots.Pairwise fun a b => a.epoch < b.epoch

/-- The lot of an epoch has that epoch. -/
theorem epoch_of_get? {g : Ledger} {e : Epoch} {l : Lot} (h : g.get? e = some l) :
    l.epoch = e := by
  have := List.find?_some h
  simpa using this

/-- The lot of an epoch is one of the lots. -/
theorem mem_of_get? {g : Ledger} {e : Epoch} {l : Lot} (h : g.get? e = some l) :
    l ∈ g.lots := List.mem_of_find?_eq_some h

/-- A lot that is put is there. -/
@[simp] theorem get?_put_self (g : Ledger) (l : Lot) : (g.put l).get? l.epoch = some l := by
  unfold get? put
  dsimp only
  induction g.lots with
  | nil => simp [putLot]
  | cons x xs ih =>
    unfold putLot
    split
    · simp
    · split
      · simp
      · rename_i h
        rw [List.find?_cons_of_neg, ih]
        simpa using fun he => h he.symm

/-- Putting a lot moves no lot of another epoch. -/
theorem get?_put_of_ne {g : Ledger} {l : Lot} {e : Epoch} (h : l.epoch ≠ e) :
    (g.put l).get? e = g.get? e := by
  unfold get? put
  dsimp only
  induction g.lots with
  | nil => simp [putLot, h]
  | cons x xs ih =>
    unfold putLot
    split
    · simp [h]
    · split
      · rename_i hx
        simp [h, ← hx]
      · simp only [List.find?_cons, ih]

/-- An erased lot is gone. -/
@[simp] theorem get?_erase_self (g : Ledger) (e : Epoch) : (g.erase e).get? e = none := by
  unfold get? erase
  simp

/-- Erasing a lot moves no lot of another epoch. -/
theorem get?_erase_of_ne {g : Ledger} {d e : Epoch} (h : d ≠ e) :
    (g.erase d).get? e = g.get? e := by
  unfold get? erase
  dsimp only
  induction g.lots with
  | nil => rfl
  | cons x xs ih =>
    by_cases hx : x.epoch = d
    · have hxe : x.epoch ≠ e := hx ▸ h
      simp [hx, ih, h]
    · simp [hx, List.find?_cons, ih]

end Ledger

end StakeAccounting

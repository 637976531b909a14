import StakeAccounting.Lot

/-!
# The order lots are drawn in

Withdrawals and transfers draw on the **newest** lot first, so a ledger is used
as a stack. Converts draw on the lot with the **highest base value per amount**
first, the newer of two with equal ratios. Either order is a strict relation
between lots, and `arrange` sorts by it: a lot is inserted behind those that come
strictly before it, so lots that neither comes before stay in the order they were
given in.

The ratio is a rounded decimal quotient. Where it is out of range the lots
cannot be arranged, and the first such lot is refused.
-/

namespace StakeAccounting

/-- **The order lots are drawn in.** -/
inductive SelectionOrder where
  /-- The newest epoch first. -/
  | newestFirst
  /-- The highest base value per amount first, then the newest epoch. -/
  | highestRatioFirst
deriving DecidableEq, Inhabited

/-- **What a selection is made for.** -/
inductive Purpose where
  /-- Tokens leave the protocol. -/
  | withdrawal
  /-- Tokens go to another account. -/
  | transfer
  /-- Tokens are converted to another token. -/
  | convert
deriving DecidableEq

/-- The order each purpose draws in. -/
def Purpose.order : Purpose → SelectionOrder
  | withdrawal | transfer => .newestFirst
  | convert => .highestRatioFirst

/-- Put `a` into a list behind the elements that come before it. -/
def insertBehind {α : Type} (before : α → α → Bool) (a : α) : List α → List α
  | [] => [a]
  | b :: bs => if before b a then b :: insertBehind before a bs else a :: b :: bs

/-- **Sort by a strict order**, leaving elements of which neither comes before
the other in the order they were given in. -/
def arrangeBy {α : Type} (before : α → α → Bool) (as : List α) : List α :=
  as.foldr (insertBehind before) []

/-- Inserting an element adds it and drops none. -/
theorem perm_insertBehind {α : Type} (before : α → α → Bool) (a : α) :
    ∀ as : List α, (insertBehind before a as).Perm (a :: as)
  | [] => .refl _
  | b :: bs => by
    unfold insertBehind
    split
    · exact ((perm_insertBehind before a bs).cons b).trans (.swap a b bs)
    · exact .refl _

/-- Sorting neither adds nor drops an element. -/
theorem perm_arrangeBy {α : Type} (before : α → α → Bool) :
    ∀ as : List α, (arrangeBy before as).Perm as
  | [] => .refl _
  | a :: as => (perm_insertBehind before a _).trans ((perm_arrangeBy before as).cons a)

namespace Lot

/-- Whether a lot comes before another, newest first. -/
def newer (a b : Lot) : Bool := b.epoch < a.epoch

/-- The base value per amount, as a decimal. -/
def ratio (l : Lot) : Outcome Decimal :=
  Outcome.orRefuse (.malformedLot l.epoch .ratioOutOfRange) (l.baseValue.div? l.rawAmount)

/-- Whether a lot with its ratio comes before another, highest ratio first. -/
def richer (a b : Decimal × Lot) : Bool :=
  b.1 < a.1 || decide (b.1.Same a.1) && newer a.2 b.2

end Lot

/-- **The lots in the order they are drawn in.** -/
def SelectionOrder.arrange (ls : List Lot) : SelectionOrder → Outcome (List Lot)
  | .newestFirst => pure (arrangeBy Lot.newer ls)
  | .highestRatioFirst => do
    let keyed ← ls.mapM fun l => do
      let r ← l.ratio
      pure (r, l)
    pure ((arrangeBy Lot.richer keyed).map (·.2))

end StakeAccounting

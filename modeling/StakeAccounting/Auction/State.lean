import StakeAccounting.Auction.Capacity
import StakeAccounting.Auction.Curve

/-!
# The auction

The state of an auction is a **snapshot** at one block: how far the window has
run, the rate there and the capacity left. `AuctionState.capture` makes one from
the parameters of the epoch, `advance` steps to the next block, and `blocks`
walks to the end of the window. Inside the window the auction is in its first
phase; behind it the rate stays at the maximum and a step changes nothing.

A snapshot is not checked again: one that was read from somewhere describes
whatever it says. A step that is refused leaves it as it was.
-/

namespace StakeAccounting

/-- **The phase of an epoch.** -/
inductive AuctionPhase where
  /-- The rate climbs along the curve. -/
  | auction
  /-- The rate stays at the maximum. -/
  | steady
deriving DecidableEq

/-- The phase at an offset from the start of the epoch. -/
def AuctionPhase.ofOffset (offset : UInt64) : AuctionPhase :=
  if offset < RateCurve.windowBlocks then auction else steady

/-- **The parameters of an epoch.** -/
structure EpochParams where
  /-- The block the epoch starts at. -/
  epochStart : Block
  /-- The rate at the end of the window. -/
  maxRate : Decimal
  /-- The capacity at that rate. -/
  baseCapacity : Decimal
  /-- Whether the capacity follows the rate. -/
  aboveEquilibrium : Bool
deriving DecidableEq

/-- **A snapshot of an auction.** -/
structure AuctionState where
  /-- The block the epoch starts at. -/
  epochStart : Block
  /-- The blocks since then, up to the end of the window. -/
  offset : UInt64
  /-- The rate at the end of the window. -/
  maxRate : Decimal
  /-- The rate now. -/
  currentRate : Decimal
  /-- The capacity left now. -/
  capacity : Decimal
  /-- Whether the capacity follows the rate. -/
  aboveEquilibrium : Bool
  /-- How rates are rounded. -/
  curve : RateCurve
deriving DecidableEq

namespace AuctionState

/-- **The snapshot at a block.** A block before the start of the epoch counts
as the start, one behind the window as its end. -/
def capture (curve : RateCurve) (p : EpochParams) (here : Block) : Outcome AuctionState := do
  let distance := here.distance p.epochStart
  let offset := if RateCurve.windowBlocks < distance then RateCurve.windowBlocks else distance
  let rate ← curve.rateAt offset p.maxRate
  let capacity ←
    if p.aboveEquilibrium then Capacity.atRate p.baseCapacity p.maxRate rate
    else pure p.baseCapacity
  pure ⟨p.epochStart, offset, p.maxRate, rate, capacity, p.aboveEquilibrium, curve⟩

/-- The phase the snapshot is in. -/
def phase (s : AuctionState) : AuctionPhase := .ofOffset s.offset

/-- The block the snapshot describes. -/
def block (s : AuctionState) : Block := s.epochStart.later s.offset

/-- The rate one block later. -/
def nextRate (s : AuctionState) : Outcome Decimal := s.curve.rateAt (s.offset + 1) s.maxRate

/-- **The capacity one block later**, which is also the most that can be lent
then. -/
def nextCapacity (s : AuctionState) : Outcome Decimal := do
  let rate ← s.nextRate
  Capacity.next s.capacity s.currentRate rate s.aboveEquilibrium

/-- **The snapshot one block later.** -/
def advanced (s : AuctionState) : Outcome AuctionState :=
  match s.phase with
  | .steady => pure s
  | .auction => do
    let rate ← s.nextRate
    let capacity ← s.nextCapacity
    pure { s with offset := s.offset + 1, currentRate := rate, capacity := capacity }

/-- **Step one block on**; a step that fails leaves the snapshot as it was. -/
def advance (s : AuctionState) : AuctionState × Outcome Unit :=
  match s.advanced with
  | .ok next => (next, .ok ())
  | .error failure => (s, .error failure)

/-- Two snapshots with the same words and flags, and decimals equal in value. -/
def Same (s t : AuctionState) : Prop :=
  s.epochStart = t.epochStart ∧ s.offset = t.offset ∧ s.maxRate.Same t.maxRate ∧
    s.currentRate.Same t.currentRate ∧ s.capacity.Same t.capacity ∧
    s.aboveEquilibrium = t.aboveEquilibrium ∧ s.curve.Same t.curve

instance (s t : AuctionState) : Decidable (s.Same t) := inferInstanceAs (Decidable (_ ∧ _))

/-! ## Walking to the end of the window -/

/-- **A walk along the blocks**, by what it shows next. -/
structure Walk where
  /-- The next snapshot, or the failure to make it; nothing at the end. -/
  pending : Option (Outcome AuctionState)

namespace Walk

/-- **What the walk shows, and the walk behind it.** It ends behind the first
steady snapshot and behind a failure. -/
def step (w : Walk) : Option (Outcome AuctionState) × Walk :=
  match w.pending with
  | none => (none, w)
  | some (.error failure) => (some (.error failure), ⟨none⟩)
  | some (.ok s) =>
    (some (.ok s), ⟨match s.phase with
      | .auction => some s.advanced
      | .steady => none⟩)

/-- The first `n` things the walk shows. -/
def take : Nat → Walk → List (Outcome AuctionState)
  | 0, _ => []
  | n + 1, w =>
    match w.step with
    | (none, _) => []
    | (some shown, rest) => shown :: take n rest

end Walk

/-- The walk that starts at a snapshot. -/
def walk (s : AuctionState) : Walk := ⟨some (.ok s)⟩

/-- **The snapshots from this one to the first steady one**, or to the first
failure. The window and the block behind it are the most there can be. -/
def blocks (s : AuctionState) : List (Outcome AuctionState) :=
  s.walk.take (RateCurve.windowBlocks.toNat + 2)

end AuctionState

end StakeAccounting

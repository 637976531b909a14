/-!
# Epochs and blocks

Two clocks run side by side. An **epoch** is the period a deposit is stamped
with; stake weight accrues per epoch that has passed since. A **block** is a
height of the chain; the auction of an epoch runs along the blocks after the one
the epoch starts at. Keeping the two apart as types means neither can be given
where the other is meant.

Both are machine words. Distances are never negative: `Epoch.elapsedSince?` has
no answer for a later epoch, and `Block.distance` stops at zero.
-/

namespace StakeAccounting

/-- **An epoch**, by its number. -/
structure Epoch where
  /-- The number of epochs before this one. -/
  number : UInt32
deriving DecidableEq, Inhabited

namespace Epoch

/-- The first epoch. -/
def genesis : Epoch := ⟨0⟩

instance : LT Epoch := ⟨fun a b => a.number < b.number⟩

instance : LE Epoch := ⟨fun a b => a.number ≤ b.number⟩

instance (a b : Epoch) : Decidable (a < b) :=
  inferInstanceAs (Decidable (a.number < b.number))

instance (a b : Epoch) : Decidable (a ≤ b) :=
  inferInstanceAs (Decidable (a.number ≤ b.number))

instance : Ord Epoch := ⟨fun a b => compare a.number b.number⟩

theorem lt_def (a b : Epoch) : a < b ↔ a.number.toNat < b.number.toNat := UInt32.lt_iff_toNat_lt

theorem le_def (a b : Epoch) : a ≤ b ↔ a.number.toNat ≤ b.number.toNat := UInt32.le_iff_toNat_le

/-- Two epochs of one number are one epoch. -/
theorem ext_toNat {a b : Epoch} (h : a.number.toNat = b.number.toNat) : a = b := by
  cases a
  cases b
  exact congrArg Epoch.mk (UInt32.toNat_inj.mp h)

/-- How many epochs have passed since `earlier`; none if that lies ahead. -/
def elapsedSince? (now earlier : Epoch) : Option UInt32 :=
  if earlier ≤ now then some (now.number - earlier.number) else none

/-- The epochs that have passed since `earlier`, and zero if that lies ahead. -/
def elapsedSince (now earlier : Epoch) : UInt32 := (now.elapsedSince? earlier).getD 0

/-- The epoch after this one; the last one is followed by itself. -/
def next (e : Epoch) : Epoch := if e.number = 0xFFFFFFFF then e else ⟨e.number + 1⟩

/-- The text of an epoch. -/
def toText (e : Epoch) : String := "epoch " ++ toString e.number.toNat

end Epoch

/-- **A block**, by its height. -/
structure Block where
  /-- The number of blocks before this one. -/
  height : UInt64
deriving DecidableEq, Inhabited

namespace Block

instance : Ord Block := ⟨fun a b => compare a.height b.height⟩

/-- The blocks from `start` up to `b`, and zero if `b` comes first. -/
def distance (b start : Block) : UInt64 :=
  if start.height ≤ b.height then b.height - start.height else 0

/-- The block `n` blocks later. -/
def later (b : Block) (n : UInt64) : Block := ⟨b.height + n⟩

/-- The text of a block. -/
def toText (b : Block) : String := "#" ++ toString b.height.toNat

end Block

end StakeAccounting

import StakeAccounting.History
import StakeAccounting.Ledger

/-!
# Changes of a ledger

What a ledger can be asked for is a **change**: to add a deposit, to take one
removal, or to take several or none. A ledger that is used lives through a list
of changes, some of which are refused; `Ledger.run` goes through such a list and
records what became of each. A change that fails leaves the ledger as it was
(`Ledger.perform_of_error`), so the ledger behind a list of changes depends on
those alone that succeeded.
-/

namespace StakeAccounting

namespace Ledger

/-- **A change a ledger is asked for.** -/
inductive Change where
  /-- Add a deposit. -/
  | append (lot : Lot)
  /-- Take a removal from the lot of an epoch. -/
  | remove (epoch : Epoch) (delta : LotDelta)
  /-- Take every removal of a list or none. -/
  | apply (deltas : List LotDelta)
deriving DecidableEq

/-- The ledger behind a change, if it succeeds. -/
def changed (g : Ledger) : Change → Outcome Ledger
  | .append lot => g.append lot
  | .remove epoch delta => g.remove epoch delta
  | .apply deltas => g.applyDeltas deltas

/-- **Perform a change**: the ledger afterwards, and what became of the
change. -/
def perform (g : Ledger) (c : Change) : Ledger × Outcome Unit :=
  match g.changed c with
  | .ok after => (after, .ok ())
  | .error failure => (g, .error failure)

/-- **Perform the changes of a list**, in order. -/
def run : Ledger → List Change → Ledger × List (Outcome Unit) := History.run perform

/-- A change that succeeds leaves the ledger it is meant to. -/
theorem perform_of_ok {g after : Ledger} {c : Change} (h : g.changed c = .ok after) :
    g.perform c = (after, .ok ()) := by
  rw [perform, h]

/-- **A change that fails leaves the ledger as it was.** -/
theorem perform_of_error {g : Ledger} {c : Change} {failure : Failure}
    (h : g.changed c = .error failure) : g.perform c = (g, .error failure) := by
  rw [perform, h]

end Ledger

end StakeAccounting

/-!
# Histories

Ledgers, books and auctions live through **histories**: lists of things that are
asked of them, one after the other. Each is performed on the state the one before
it left, and each has an outcome; a thing that is refused is part of the history
like any other.

`History.run` is the run of a history. What holds at the start and is kept by
every single step holds at the end (`History.run_invariant`), so about a run one
has to know only what one step does.
-/

namespace StakeAccounting

namespace History

variable {State Request Answer : Type}

/-- **Perform the requests of a list**, in order: the state behind the last,
and what became of each. -/
def run (perform : State → Request → State × Answer) :
    State → List Request → State × List Answer
  | s, [] => (s, [])
  | s, r :: rs =>
    let (after, outcome) := perform s r
    let (last, outcomes) := run perform after rs
    (last, outcome :: outcomes)

variable (perform : State → Request → State × Answer)

@[simp] theorem run_nil (s : State) : run perform s [] = (s, []) := rfl

@[simp] theorem run_cons (s : State) (r : Request) (rs : List Request) :
    run perform s (r :: rs) =
      ((run perform (perform s r).1 rs).1, (perform s r).2 :: (run perform (perform s r).1 rs).2) :=
  rfl

/-- Every request has an outcome. -/
theorem length_run (s : State) (rs : List Request) :
    (run perform s rs).2.length = rs.length := by
  induction rs generalizing s with
  | nil => rfl
  | cons r rs ih => rw [run_cons, List.length_cons, List.length_cons, ih]

/-- **A history in two parts**: the second part runs on what the first one
leaves. -/
theorem run_append (s : State) (rs ts : List Request) :
    run perform s (rs ++ ts) =
      ((run perform (run perform s rs).1 ts).1,
        (run perform s rs).2 ++ (run perform (run perform s rs).1 ts).2) := by
  induction rs generalizing s with
  | nil => rfl
  | cons r rs ih =>
    rw [List.cons_append, run_cons, ih]
    rfl

/-- **What every step keeps, a whole history keeps.** -/
theorem run_invariant {Invariant : State → Prop}
    (keeps : ∀ s r, Invariant s → Invariant (perform s r).1)
    {s : State} (h : Invariant s) (rs : List Request) : Invariant (run perform s rs).1 := by
  induction rs generalizing s with
  | nil => exact h
  | cons r rs ih => exact ih (keeps s r h)

end History

end StakeAccounting

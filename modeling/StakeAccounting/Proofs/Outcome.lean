import StakeAccounting.Outcome

/-!
# How operations fail

What an operation answers is one question, how it fails another: `Outcome.FailsOnly` says in which
ways it does, if it fails at all. Operations that follow each other fail in the ways of both, so
what is said of the guarded and the unguarded values carries over to whatever is made of them.
-/

namespace StakeAccounting

namespace Outcome

/-- **An operation that fails in some ways** only, if at all. -/
def FailsOnly {α : Type} (P : Failure → Prop) (x : Outcome α) : Prop :=
  ∀ failure, x = .error failure → P failure

variable {α β : Type} {P Q : Failure → Prop}

theorem failsOnly_ok (a : α) : FailsOnly P (.ok a : Outcome α) := nofun

theorem FailsOnly.imp {x : Outcome α} (hx : x.FailsOnly P) (h : ∀ failure, P failure → Q failure) :
    x.FailsOnly Q := fun failure hfailure => h failure (hx failure hfailure)

/-- Two operations in a row fail in the ways that both of them do. -/
theorem FailsOnly.bind {x : Outcome α} {f : α → Outcome β} (hx : x.FailsOnly P)
    (hf : ∀ a, x = .ok a → (f a).FailsOnly P) : (x >>= f).FailsOnly P := by
  cases x with
  | ok a => exact hf a rfl
  | error failure =>
    intro failure' h
    cases h
    exact hx failure rfl

/-- An unguarded value that is not there overflows. -/
theorem failsOnly_orOverflow (o : Option α) : (orOverflow o).FailsOnly (· = .overflow) :=
  fun _ h => overflow_of_orOverflow h

end Outcome

end StakeAccounting

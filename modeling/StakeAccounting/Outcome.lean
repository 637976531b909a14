import StakeAccounting.Decimal.Quotient
import StakeAccounting.Refusal

/-!
# Outcomes

An operation either answers or **fails**, and there are two ways to fail: it is
refused, for a reason that belongs to the domain, or a sum, difference or
product that nobody guards leaves the range of decimals. The second is a fault
of the numbers and not of the request, so it is kept apart (`Failure.overflow`):
that an operation never overflows is a statement one can make about it.

`plus`, `minus` and `times` are the unguarded operations.
-/

namespace StakeAccounting

/-- **Why an operation has no answer.** -/
inductive Failure where
  /-- The operation is refused. -/
  | refused (cause : Refusal)
  /-- An unguarded sum, difference or product is out of range. -/
  | overflow
deriving DecidableEq

/-- The answer of an operation, or why there is none. -/
abbrev Outcome (α : Type) := Except Failure α

namespace Outcome

/-- Refuse, for the given reason. -/
def refuse {α : Type} (cause : Refusal) : Outcome α := .error (.refused cause)

/-- Refuse because of a lot. -/
def refuseLot {α : Type} (epoch : Epoch) (fault : LotFault) : Outcome α :=
  refuse (.malformedLot epoch fault)

/-- Refuse because of the settings. -/
def refuseSettings {α : Type} (fault : SettingsFault) : Outcome α :=
  refuse (.invalidSettings fault)

/-- A guarded value: where there is none, the operation is refused. -/
def orRefuse {α : Type} (cause : Refusal) : Option α → Outcome α
  | some a => .ok a
  | none => refuse cause

/-- An unguarded value: where there is none, the operation overflows. -/
def orOverflow {α : Type} : Option α → Outcome α
  | some a => .ok a
  | none => .error .overflow

/-- The answer, if there is one. -/
def answer? {α : Type} : Outcome α → Option α
  | .ok a => some a
  | .error _ => none

/-- Where the answer is there, it is the outcome. -/
theorem exists_ok_of_answer? {α : Type} {x : Outcome α} (h : x.answer?.isSome = true) :
    ∃ a, x = .ok a := by
  cases x with
  | ok a => exact ⟨a, rfl⟩
  | error failure => cases h

@[simp] theorem orRefuse_some {α : Type} (cause : Refusal) (a : α) :
    orRefuse cause (some a) = .ok a := rfl

@[simp] theorem orRefuse_none {α : Type} (cause : Refusal) :
    (orRefuse cause none : Outcome α) = refuse cause := rfl

@[simp] theorem orOverflow_some {α : Type} (a : α) : orOverflow (some a) = .ok a := rfl

@[simp] theorem orOverflow_none {α : Type} : (orOverflow none : Outcome α) = .error .overflow := rfl

theorem orOverflow_eq_ok {α : Type} {o : Option α} {a : α} :
    orOverflow o = .ok a ↔ o = some a := by
  cases o <;> simp [orOverflow]

theorem orRefuse_eq_ok {α : Type} {cause : Refusal} {o : Option α} {a : α} :
    orRefuse cause o = .ok a ↔ o = some a := by
  cases o <;> simp [orRefuse, refuse]

/-- **Two operations in a row** answer where the first answers and the second
answers to that. -/
theorem bind_eq_ok {α β : Type} {x : Outcome α} {f : α → Outcome β} {b : β} :
    (x >>= f) = .ok b ↔ ∃ a, x = .ok a ∧ f a = .ok b := by
  cases x with
  | error failure => exact ⟨nofun, fun ⟨_, h, _⟩ => nomatch h⟩
  | ok a => exact ⟨fun h => ⟨a, rfl, h⟩, fun ⟨_, h, hf⟩ => Except.ok.inj h ▸ hf⟩

/-- Two operations in a row fail where the first fails, or where it answers and the second
fails on that. -/
theorem bind_eq_error {α β : Type} {x : Outcome α} {f : α → Outcome β} {failure : Failure} :
    (x >>= f) = .error failure ↔
      x = .error failure ∨ ∃ a, x = .ok a ∧ f a = .error failure := by
  cases x with
  | error cause =>
    constructor
    · intro h
      cases h
      exact Or.inl rfl
    · rintro (h | ⟨_, h, _⟩)
      · cases h
        rfl
      · cases h
  | ok a => exact ⟨fun h => Or.inr ⟨a, rfl, h⟩,
      fun h => h.elim (fun hx => nomatch hx) fun ⟨_, hx, hf⟩ => Except.ok.inj hx ▸ hf⟩

/-- An unguarded value that is not there is an overflow. -/
theorem overflow_of_orOverflow {α : Type} {o : Option α} {failure : Failure}
    (h : orOverflow o = .error failure) : failure = .overflow := by
  cases o with
  | none => exact (Except.error.inj h).symm
  | some a => cases h

/-- A guarded value that is not there is refused for its cause. -/
theorem refused_of_orRefuse {α : Type} {cause : Refusal} {o : Option α} {failure : Failure}
    (h : orRefuse cause o = .error failure) : failure = .refused cause := by
  cases o with
  | none => exact (Except.error.inj h).symm
  | some a => cases h

/-- An answer that is changed afterwards is there where the answer is. -/
theorem map_eq_ok {α β : Type} {x : Outcome α} {f : α → β} {b : β} :
    f <$> x = .ok b ↔ ∃ a, x = .ok a ∧ f a = b := by
  cases x with
  | error failure => exact ⟨nofun, fun ⟨_, h, _⟩ => nomatch h⟩
  | ok a => exact ⟨fun h => ⟨a, rfl, Except.ok.inj h⟩,
      fun ⟨_, h, hf⟩ => congrArg Except.ok (Except.ok.inj h ▸ hf)⟩

end Outcome

namespace Decimal

/-- The sum; it may overflow. -/
def plus (a b : Decimal) : Outcome Decimal := Outcome.orOverflow (a.add? b)

/-- The difference; it may overflow. -/
def minus (a b : Decimal) : Outcome Decimal := Outcome.orOverflow (a.sub? b)

/-- The product; it may overflow. -/
def times (a b : Decimal) : Outcome Decimal := Outcome.orOverflow (a.mul? b)

/-- The sum of a list, from zero and in order; it may overflow. -/
def sum (as : List Decimal) : Outcome Decimal := as.foldlM plus zero

end Decimal

end StakeAccounting

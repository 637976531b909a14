import Mathlib.Algebra.BigOperators.Group.List.Basic
import Mathlib.Data.List.Sublists
import StakeAccounting.Proofs.Decimal.Nearest

/-!
# Sums that need no rounding

Whether a sum is rounded depends on the order it is formed in, as every partial sum is. So
exactness is said of all the sums that can come up, and not of the last one alone: numbers
**have exact sums** if the sum of any of them is a decimal (`Decimal.SumsExact`). That is as
much as a fold needs, in any order (`exists_sum_of_exact`), and it is kept by what is done to
numbers before they are added up: putting them in another order, changing their sign, and
adding them in pairs first (`SumsExact.perm`, `sumsExact_neg_iff`, `SumsExact.add`).

The numbers are counted in quanta, and may have either sign and any scale.
-/

namespace StakeAccounting

namespace Decimal

/-- **So many quanta are a decimal**, exactly. -/
def Exact (n : Int) : Prop := ∃ c : Decimal, c.quanta = n

/-- Exact numbers are those that rounding leaves as they are. -/
theorem exact_iff {n : Int} : Exact n ↔ nearest? (n * tens 28) = some n := by
  constructor
  · rintro ⟨c, rfl⟩
    exact nearest?_quanta c
  · intro h
    obtain ⟨c, -, hc⟩ := Option.map_eq_some_iff.mp h
    exact ⟨c, hc⟩

instance (n : Int) : Decidable (Exact n) := decidable_of_iff _ exact_iff.symm

theorem Exact.neg {n : Int} (h : Exact n) : Exact (-n) := by
  obtain ⟨c, rfl⟩ := h
  exact ⟨-c, quanta_neg c⟩

/-- **A sum that is a decimal** is not rounded. -/
theorem exists_plus_of_exact {a b : Decimal} (h : Exact (a.quanta + b.quanta)) :
    ∃ c, a.plus b = .ok c ∧ c.quanta = a.quanta + b.quanta := by
  obtain ⟨c, hc, hq⟩ := exists_add? (exact_iff.mp h)
  exact ⟨c, plus_eq_ok.mpr hc, hq⟩

/-- **A difference that is a decimal** is not rounded. -/
theorem quanta_minus_of_exact {a b c : Decimal} (h : Exact (a.quanta - b.quanta))
    (hc : a.minus b = .ok c) : c.quanta = a.quanta - b.quanta := by
  obtain ⟨d, hd, hq⟩ := exists_sub? (exact_iff.mp h)
  rw [minus_eq_ok, hd] at hc
  cases hc
  exact hq

/-! ## Exact sums of any of some numbers -/

/-- **Numbers have exact sums** if the sum of any of them is a decimal. -/
def SumsExact (qs : List Int) : Prop := ∀ xs : List Int, xs.Sublist qs → Exact xs.sum

instance (qs : List Int) : Decidable (SumsExact qs) :=
  decidable_of_iff (∀ xs ∈ qs.sublists, Exact xs.sum) (by simp only [List.mem_sublists, SumsExact])

variable {qs rs : List Int}

/-- The sum of all the numbers is one of their sums. -/
theorem SumsExact.exact (h : SumsExact qs) : Exact qs.sum := h qs (List.Sublist.refl qs)

/-- Each of the numbers is one of their sums. -/
theorem SumsExact.exact_of_mem (h : SumsExact qs) {q : Int} (hq : q ∈ qs) : Exact q := by
  simpa using h [q] (List.singleton_sublist.mpr hq)

/-- Some of the numbers have exact sums, if all of them have. -/
theorem SumsExact.sublist (h : SumsExact qs) (hsub : rs.Sublist qs) : SumsExact rs :=
  fun xs hxs => h xs (hxs.trans hsub)

/-- **In another order** the numbers have the same sums. -/
theorem SumsExact.perm (h : SumsExact qs) (hperm : qs.Perm rs) : SumsExact rs := by
  intro xs hxs
  obtain ⟨ys, hys, hsub⟩ := hxs.subperm.trans hperm.symm.subperm
  rw [← hys.sum_eq]
  exact h ys hsub

/-- **With the other sign** the numbers have the other sums. -/
theorem sumsExact_neg_iff : SumsExact (qs.map Neg.neg) ↔ SumsExact qs := by
  have hneg : ∀ {ps : List Int}, SumsExact ps → SumsExact (ps.map Neg.neg) := by
    intro ps h xs hxs
    obtain ⟨ys, hys, rfl⟩ := List.sublist_map_iff.mp hxs
    rw [← List.sum_neg]
    exact (h ys hys).neg
  exact ⟨fun h => by simpa using hneg h, hneg⟩

/-- **Added in pairs** the numbers have some of the sums they have without. -/
theorem SumsExact.add {α : Type} {f g : α → Int} {as : List α}
    (h : SumsExact (as.map f ++ as.map g)) : SumsExact (as.map fun a => f a + g a) := by
  intro xs hxs
  obtain ⟨ys, hys, rfl⟩ := List.sublist_map_iff.mp hxs
  rw [List.sum_map_add, ← List.sum_append]
  exact h _ ((hys.map f).append (hys.map g))

/-- **Numbers with exact sums are added up exactly.** The induction is from the end of the list,
as the partial sums are those of its beginnings. -/
theorem exists_sum_of_exact {α : Type} {part : α → Decimal} {xs : List α}
    (h : SumsExact (xs.map fun x => (part x).quanta)) :
    ∃ c, Decimal.sum (xs.map part) = .ok c ∧ c.quanta = (xs.map fun x => (part x).quanta).sum := by
  induction xs using List.reverseRecOn with
  | nil => exact ⟨zero, rfl, rfl⟩
  | append_singleton xs x ih =>
    rw [List.map_append] at h ⊢
    obtain ⟨c, hc, hq⟩ := ih (h.sublist (List.sublist_append_left _ _))
    have hexact := h.exact
    rw [List.sum_append, List.map_singleton, List.sum_singleton, ← hq] at hexact
    obtain ⟨d, hd, hdq⟩ := exists_plus_of_exact hexact
    refine ⟨d, ?_, ?_⟩
    · rw [Decimal.sum, List.foldlM_append]
      exact Outcome.bind_eq_ok.mpr ⟨c, hc, Outcome.bind_eq_ok.mpr ⟨d, hd, rfl⟩⟩
    · rw [hdq, hq, List.map_append, List.sum_append, List.map_singleton, List.sum_singleton]

/-- A sum of numbers with exact sums is exact. -/
theorem quanta_sum_of_exact {α : Type} {part : α → Decimal} {xs : List α} {c : Decimal}
    (h : SumsExact (xs.map fun x => (part x).quanta)) (hc : Decimal.sum (xs.map part) = .ok c) :
    c.quanta = (xs.map fun x => (part x).quanta).sum := by
  obtain ⟨d, hd, hq⟩ := exists_sum_of_exact h
  rw [hc] at hd
  cases hd
  exact hq

end Decimal

end StakeAccounting

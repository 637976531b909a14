import Mathlib.Tactic.Common
import StakeAccounting.Decimal.Text

/-!
# Reading a written decimal

A decimal that is written and read again is the same number with the same scale. Its text
shows as many digits behind the point as the scale says, so the zeros at the end, which the
value does not need, are kept. What is lost is the sign of a zero: a zero may be written
with one, but is read without (`Decimal.asRead`).

Reading goes digit by digit and gives up, or rounds, where the mantissa or the scale would
go out of range. Neither happens for the digits of a decimal: the number of the first
digits of a text is at most the number of all of them (`le_ofDigitChars`), so what has been
read stays below the bound that the whole mantissa stays below (`readDigits_digits`).
-/

namespace StakeAccounting

namespace Decimal

/-- **What becomes of a decimal that is written and read again**: a zero loses its sign. -/
def asRead (a : Decimal) : Decimal := { a with negative := a.negative && a.mantissa != 0 }

@[simp] theorem scale_asRead (a : Decimal) : a.asRead.scale = a.scale := rfl

/-- The value is the same. -/
theorem same_asRead (a : Decimal) : a.asRead.Same a := by
  have hcoefficient : a.asRead.coefficient = a.coefficient := by
    unfold coefficient asRead
    by_cases hm : a.mantissa = 0 <;> simp [hm]
  rw [same_def, quanta, quanta, hcoefficient, scale_asRead]

/-! ## Runs of digits -/

variable {c : Char} {cs : List Char} {m s : Nat}

theorem digitValue?_of_isDigit (h : c.isDigit = true) :
    digitValue? c = some (c.toNat - '0'.toNat) := by
  rw [Char.isDigit_iff_toNat] at h
  exact if_pos h

/-- The number of a run of digits is at least the one of its first digits. -/
theorem le_ofDigitChars (cs : List Char) (m : Nat) : m ≤ Nat.ofDigitChars 10 cs m := by
  rw [Nat.ofDigitChars_eq_ofDigitChars_zero]
  exact Nat.le_add_right_of_le (Nat.le_mul_of_pos_left m (Nat.pow_pos (by decide)))

/-- **Digits are read one by one.** If the number they make is below the bound and those
behind the point fit there, all are taken. -/
theorem readDigits_digits (hcs : ∀ c ∈ cs, c.isDigit = true) (point digit : Bool)
    (rest : List Char) (hbound : Nat.ofDigitChars 10 cs m < mantissaBound)
    (hplaces : point = true → s + cs.length ≤ 28) :
    readDigits m s point digit (cs ++ rest) = readDigits (Nat.ofDigitChars 10 cs m)
      (if point then s + cs.length else s) point (digit || !cs.isEmpty) rest := by
  induction cs generalizing m s digit with
  | nil => simp
  | cons c cs ih =>
    have hc := hcs c List.mem_cons_self
    have hgap : c ≠ '_' := by rintro rfl; exact absurd hc (by decide)
    have hpoint : c ≠ '.' := by rintro rfl; exact absurd hc (by decide)
    rw [Nat.ofDigitChars_cons] at hbound ⊢
    -- the digit is taken: what was read with it is at most the whole number
    have htaken : 10 * m + (c.toNat - '0'.toNat) < mantissaBound ∧ ¬(point ∧ s = 28) := by
      refine ⟨Nat.lt_of_le_of_lt (le_ofDigitChars cs _) hbound, ?_⟩
      rintro ⟨hp, rfl⟩
      have := hplaces hp
      rw [List.length_cons] at this
      omega
    have hrest := ih (s := if point then s + 1 else s)
      (fun c hmem => hcs c (List.mem_cons_of_mem _ hmem)) true hbound (by
        intro hp
        have := hplaces hp
        rw [List.length_cons] at this
        rw [if_pos hp]
        omega)
    rw [List.cons_append, readDigits, if_neg hgap, if_neg hpoint, digitValue?_of_isDigit hc]
    simp only [if_pos htaken, hrest]
    cases point <;> simp [Nat.add_comm, Nat.add_left_comm]

/-- A digit in front is no sign. -/
theorem splitSign_digit (h : c.isDigit = true) : splitSign (c :: cs) = (false, c :: cs) := by
  unfold splitSign
  split
  · next heq => cases heq; exact absurd h (by decide)
  · next heq => cases heq; exact absurd h (by decide)
  · rfl

/-! ## The digits of a decimal -/

variable (a : Decimal)

theorem isDigit_of_mem_paddedDigits {c : Char} (h : c ∈ a.paddedDigits) : c.isDigit = true := by
  rcases List.mem_append.mp h with hzero | hdigit
  · rw [List.eq_of_mem_replicate hzero]
    decide
  · exact Nat.isDigit_of_mem_toDigits (by decide) (by decide) hdigit

/-- Zeros in front do not count. -/
theorem ofDigitChars_paddedDigits : Nat.ofDigitChars 10 a.paddedDigits 0 = a.mantissa := by
  have hzeros : ∀ n, Nat.ofDigitChars 10 (List.replicate n '0') 0 = 0 := by
    intro n
    induction n with
    | zero => rfl
    | succ n ih =>
      rw [List.replicate_succ, Nat.ofDigitChars_cons]
      exact ih
  unfold paddedDigits
  rw [Nat.ofDigitChars_append, hzeros, Nat.ofDigitChars_ten_toDigits]

/-- One digit at least stands before the point. -/
theorem scale_lt_length_paddedDigits : a.scale < a.paddedDigits.length := by
  unfold paddedDigits
  rw [List.length_append, List.length_replicate]
  omega

/-- The digits before the point. -/
def wholeDigits : List Char := a.paddedDigits.take (a.paddedDigits.length - a.scale)

/-- The digits behind the point. -/
def placeDigits : List Char := a.paddedDigits.drop (a.paddedDigits.length - a.scale)

/-- The characters but the sign. -/
def unsignedChars : List Char :=
  a.wholeDigits ++ if a.scale = 0 then [] else '.' :: a.placeDigits

theorem toChars_eq : a.toChars = (if a.negative then ['-'] else []) ++ a.unsignedChars :=
  List.append_assoc _ _ _

theorem whole_append_place : a.wholeDigits ++ a.placeDigits = a.paddedDigits :=
  List.take_append_drop _ _

theorem isDigit_of_mem_wholeDigits {c : Char} (h : c ∈ a.wholeDigits) : c.isDigit = true :=
  a.isDigit_of_mem_paddedDigits (List.mem_of_mem_take h)

theorem isDigit_of_mem_placeDigits {c : Char} (h : c ∈ a.placeDigits) : c.isDigit = true :=
  a.isDigit_of_mem_paddedDigits (List.mem_of_mem_drop h)

theorem length_placeDigits : a.placeDigits.length = a.scale := by
  have := a.scale_lt_length_paddedDigits
  unfold placeDigits
  rw [List.length_drop]
  omega

theorem exists_wholeDigits : ∃ c cs, a.wholeDigits = c :: cs := by
  have := a.scale_lt_length_paddedDigits
  refine List.exists_cons_of_length_pos ?_
  unfold wholeDigits
  rw [List.length_take]
  omega

/-- The digits behind the point complete those before it to the mantissa. -/
theorem ofDigitChars_placeDigits :
    Nat.ofDigitChars 10 a.placeDigits (Nat.ofDigitChars 10 a.wholeDigits 0) = a.mantissa := by
  rw [← Nat.ofDigitChars_append, whole_append_place, ofDigitChars_paddedDigits]

/-! ## Reading the text -/

/-- **The digits and the point** are read as the mantissa and the scale. -/
theorem readDigits_unsignedChars :
    readDigits 0 0 false false a.unsignedChars = some (a.mantissa, a.scale) := by
  have hbound : Nat.ofDigitChars 10 a.wholeDigits 0 < mantissaBound := by
    refine Nat.lt_of_le_of_lt (le_ofDigitChars a.placeDigits _) ?_
    rw [ofDigitChars_placeDigits]
    exact a.mantissa_lt
  obtain ⟨c, cs, hwhole⟩ := a.exists_wholeDigits
  unfold unsignedChars
  rw [readDigits_digits (fun c => a.isDigit_of_mem_wholeDigits) _ _ _ hbound (by simp),
    show a.wholeDigits.isEmpty = false by rw [hwhole]; rfl]
  by_cases hs : a.scale = 0
  · -- no digit is left for behind the point
    have hnone : a.placeDigits = [] := List.eq_nil_of_length_eq_zero (a.length_placeDigits.trans hs)
    have hnumber := a.ofDigitChars_placeDigits
    rw [hnone, Nat.ofDigitChars_nil] at hnumber
    rw [if_pos hs, hnumber, hs]
    rfl
  · have hplaces := readDigits_digits (s := 0) (fun c => a.isDigit_of_mem_placeDigits) true true []
      (m := Nat.ofDigitChars 10 a.wholeDigits 0)
      (by rw [ofDigitChars_placeDigits]; exact a.mantissa_lt)
      (by rw [length_placeDigits]; have := a.scale_le; omega)
    rw [ofDigitChars_placeDigits, length_placeDigits, List.append_nil] at hplaces
    rw [if_neg hs]
    simp [readDigits, hplaces]

/-- The sign of a decimal is told apart from its first digit. -/
theorem splitSign_toChars : splitSign a.toChars = (a.negative, a.unsignedChars) := by
  rw [toChars_eq]
  cases a.negative with
  | true => rfl
  | false =>
    obtain ⟨c, cs, hwhole⟩ := a.exists_wholeDigits
    have hc : c.isDigit = true := a.isDigit_of_mem_wholeDigits (hwhole ▸ List.mem_cons_self)
    unfold unsignedChars
    rw [hwhole]
    exact splitSign_digit hc

/-- **A written decimal is read again**, with its value and its scale; a zero loses its
sign. -/
theorem ofText?_toText : ofText? a.toText = some a.asRead := by
  have hplain : ofPlain? a.toChars = some a.asRead := by
    unfold ofPlain?
    simp only [splitSign_toChars, readDigits_unsignedChars, Option.bind_some]
    exact dif_pos ⟨a.mantissa_lt, a.scale_le⟩
  unfold ofText? toText ofChars?
  rw [String.toList_ofList, hplain]
  rfl

end Decimal

end StakeAccounting

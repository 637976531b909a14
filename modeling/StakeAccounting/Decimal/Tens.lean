/-!
# Powers of ten

A scale counts decimal places, so to go from one scale to another is to multiply
or to divide by a power of ten. `tens k` is the `k`-th of them, a one with `k`
zeros behind it, and `tens_add` is what makes scales add up where numbers are
multiplied.
-/

namespace StakeAccounting

/-- **The power of ten** with `k` zeros. -/
def tens (k : Nat) : Nat := Nat.pow 10 k

@[simp] theorem tens_zero : tens 0 = 1 := rfl

@[simp] theorem tens_one : tens 1 = 10 := rfl

theorem tens_succ (k : Nat) : tens (k + 1) = tens k * 10 := rfl

theorem tens_pos (k : Nat) : 0 < tens k := by
  induction k with
  | zero => exact Nat.one_pos
  | succ k ih =>
    rw [tens_succ]
    exact Nat.mul_pos ih (by decide)

/-- **Scales add up** where powers of ten are multiplied. -/
theorem tens_add (j k : Nat) : tens (j + k) = tens j * tens k := by
  induction k with
  | zero => rw [Nat.add_zero, tens_zero, Nat.mul_one]
  | succ k ih => rw [← Nat.add_assoc, tens_succ, ih, tens_succ, Nat.mul_assoc]

/-- More zeros make a greater number. -/
theorem tens_le_tens {j k : Nat} (h : j ≤ k) : tens j ≤ tens k := by
  obtain ⟨d, rfl⟩ := Nat.exists_eq_add_of_le h
  rw [tens_add]
  exact Nat.le_mul_of_pos_right _ (tens_pos d)

/-- A power of ten with a zero is at least ten. -/
theorem ten_le_tens {k : Nat} (h : 0 < k) : 10 ≤ tens k := tens_le_tens h

end StakeAccounting

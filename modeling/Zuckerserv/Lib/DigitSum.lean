import Mathlib

/-!
# Digit strings

The value of a string of digits in a base `b`, the digit at index `0` being the
lowest. A string is a function on the naturals, as a piece of memory is; how many of
its digits count is a separate number.

* `digitSum b d n` — the value of the first `n` digits of `d`.
* `digitSum_add` — cutting a string in two.
* `digitSum_lt`, `pow_le_digitSum` — the bounds a length gives.
* `digitSum_lt_of_top` — comparison from the highest digit down.
* `digitSum_inj` — a value determines its digits.
-/

namespace DigitSum

open Finset

variable {b m n : Nat} {d e : Nat → Nat}

/-- The value of the digits `d 0, …, d (n - 1)` in base `b`. -/
def digitSum (b : Nat) (d : Nat → Nat) (n : Nat) : Nat := ∑ i ∈ range n, d i * b ^ i

@[simp] theorem digitSum_zero : digitSum b d 0 = 0 := rfl

theorem digitSum_succ : digitSum b d (n + 1) = digitSum b d n + d n * b ^ n :=
  sum_range_succ _ _

theorem digitSum_congr (h : ∀ i < n, d i = e i) : digitSum b d n = digitSum b e n := by
  refine sum_congr rfl fun i hi => ?_
  rw [h i (mem_range.mp hi)]

theorem digitSum_eq_zero (h : ∀ i < n, d i = 0) : digitSum b d n = 0 := by
  refine sum_eq_zero fun i hi => ?_
  rw [h i (mem_range.mp hi), zero_mul]

theorem digitSum_lt (h : ∀ i < n, d i < b) : digitSum b d n < b ^ n := by
  induction n with
  | zero => exact Nat.one_pos
  | succ n ih =>
    have hlow := ih fun i hi => h i (Nat.lt_succ_of_lt hi)
    calc digitSum b d (n + 1) = digitSum b d n + d n * b ^ n := digitSum_succ
      _ < b ^ n + d n * b ^ n := Nat.add_lt_add_right hlow _
      _ = (d n + 1) * b ^ n := by rw [Nat.add_mul, one_mul, Nat.add_comm]
      _ ≤ b * b ^ n := Nat.mul_le_mul_right _ (h n (Nat.lt_succ_self n))
      _ = b ^ (n + 1) := (pow_succ' b n).symm

/-- A string is its low part and, shifted, its high part. -/
theorem digitSum_add :
    digitSum b d (m + n) = digitSum b d m + b ^ m * digitSum b (fun i => d (m + i)) n := by
  induction n with
  | zero => rfl
  | succ n ih =>
    rw [← Nat.add_assoc, digitSum_succ, ih, digitSum_succ, pow_add]
    ring

/-- Zeros at the top do not count. -/
theorem digitSum_of_zeros (hmn : m ≤ n) (h : ∀ i, m ≤ i → i < n → d i = 0) :
    digitSum b d n = digitSum b d m := by
  obtain ⟨k, rfl⟩ := Nat.exists_eq_add_of_le hmn
  have hhigh : digitSum b (fun i => d (m + i)) k = 0 :=
    digitSum_eq_zero fun i hi => h (m + i) (by omega) (by omega)
  rw [digitSum_add, hhigh, mul_zero, add_zero]

/-- A string with a highest digit other than zero is as large as its length says. -/
theorem pow_le_digitSum (h : d n ≠ 0) : b ^ n ≤ digitSum b d (n + 1) := by
  rw [digitSum_succ]
  calc b ^ n = 1 * b ^ n := (one_mul _).symm
    _ ≤ d n * b ^ n := Nat.mul_le_mul_right _ (Nat.one_le_iff_ne_zero.mpr h)
    _ ≤ digitSum b d n + d n * b ^ n := Nat.le_add_left _ _

/-- The highest digit in which two strings differ decides their order. -/
theorem digitSum_lt_of_top (hd : ∀ i < m, d i < b) (hlt : d m < e m) (hmn : m < n)
    (htop : ∀ i, m < i → i < n → d i = e i) : digitSum b d n < digitSum b e n := by
  obtain ⟨k, rfl⟩ := Nat.exists_eq_add_of_le hmn
  rw [digitSum_add, digitSum_add (d := e), digitSum_congr (d := fun i => d (m + 1 + i))
    fun i hi => htop _ (by omega) (by omega)]
  refine Nat.add_lt_add_right ?_ _
  calc digitSum b d (m + 1) = digitSum b d m + d m * b ^ m := digitSum_succ
    _ < b ^ m + d m * b ^ m := Nat.add_lt_add_right (digitSum_lt hd) _
    _ = (d m + 1) * b ^ m := by rw [Nat.add_mul, one_mul, Nat.add_comm]
    _ ≤ e m * b ^ m := Nat.mul_le_mul_right _ hlt
    _ ≤ digitSum b e m + e m * b ^ m := Nat.le_add_left _ _
    _ = digitSum b e (m + 1) := digitSum_succ.symm

/-- Strings of one length with one value have the same digits. -/
theorem digitSum_inj (hd : ∀ i < n, d i < b) (he : ∀ i < n, e i < b)
    (h : digitSum b d n = digitSum b e n) : ∀ i < n, d i = e i := by
  induction n with
  | zero => exact fun i hi => absurd hi (Nat.not_lt_zero i)
  | succ n ih =>
    have hd' := digitSum_lt fun i hi => hd i (Nat.lt_succ_of_lt hi)
    have he' := digitSum_lt fun i hi => he i (Nat.lt_succ_of_lt hi)
    rw [digitSum_succ, digitSum_succ] at h
    have hlow : digitSum b d n = digitSum b e n := by
      have hmod := congrArg (· % b ^ n) h
      simp only [Nat.add_mul_mod_self_right] at hmod
      rwa [Nat.mod_eq_of_lt hd', Nat.mod_eq_of_lt he'] at hmod
    intro i hi
    rcases Nat.lt_succ_iff_lt_or_eq.mp hi with hi | rfl
    · exact ih (fun i hi => hd i (Nat.lt_succ_of_lt hi)) (fun i hi => he i (Nat.lt_succ_of_lt hi))
        hlow i hi
    · rw [hlow, Nat.add_left_cancel_iff] at h
      exact Nat.eq_of_mul_eq_mul_right (by omega) h

end DigitSum

import Mathlib.Data.Nat.ModEq
import Mathlib.Data.Nat.Prime.Basic
import Mathlib.Tactic.Ring

/-!
# The binary algorithm of Euclid

Two numbers are halved while they are even, and subtracted from each other; each has a coefficient,
by which it is a multiple of a third number modulo an odd modulus.

* `Multiple` — the number is that multiple modulo the modulus, by a coefficient below it.
* `Multiple.half`, `Multiple.sub` — halving, and subtracting.
* `Pair` — both numbers, which are coprime.
* `Pair.inverse` — when one is zero, the coefficient of the other is an inverse.
-/

namespace Zuckerserv

namespace BinaryEuclid

variable {p x a c u v : Nat}

/-- `u` is `a` times `x` modulo `p`, and `a` is below `p`. -/
structure Multiple (p x a u : Nat) : Prop where
  lt : a < p
  modEq : a * x ≡ u [MOD p]

/-- An odd modulus cancels the two. -/
theorem modEq_half (hp : p % 2 = 1) {m n : Nat} (h : 2 * m ≡ 2 * n [MOD p]) : m ≡ n [MOD p] := by
  have hcoprime : Nat.Coprime p 2 := by
    rw [Nat.coprime_comm, Nat.Prime.coprime_iff_not_dvd Nat.prime_two]
    omega
  exact Nat.ModEq.cancel_left_of_coprime hcoprime h

/-- The coefficient of a half. -/
def half (p a : Nat) : Nat := if a % 2 = 0 then a / 2 else (a + p) / 2

theorem Multiple.half (h : Multiple p x a u) (hp : p % 2 = 1) (hu : u % 2 = 0) :
    Multiple p x (half p a) (u / 2) := by
  have hlt := h.lt
  have htwice : 2 * (u / 2) = u := by omega
  rw [BinaryEuclid.half]
  split
  · next ha =>
    refine ⟨by omega, modEq_half hp ?_⟩
    have heq : 2 * (a / 2 * x) = a * x := by
      rw [← Nat.mul_assoc, Nat.mul_div_cancel' (Nat.dvd_of_mod_eq_zero ha)]
    rw [htwice, heq]
    exact h.modEq
  · refine ⟨by omega, modEq_half hp ?_⟩
    have hdvd : 2 ∣ a + p := Nat.dvd_of_mod_eq_zero (by omega)
    have heq : 2 * ((a + p) / 2 * x) = a * x + p * x := by
      rw [← Nat.mul_assoc, Nat.mul_div_cancel' hdvd, Nat.add_mul]
    rw [htwice, heq]
    exact (Nat.ModEq.symm (Nat.left_modEq_add_iff.mpr (Nat.dvd_mul_right p x))).trans h.modEq

/-- The coefficient of a difference. -/
def diff (p a c : Nat) : Nat := (if a < c then a + p else a) - c

theorem Multiple.sub (h : Multiple p x a u) (h' : Multiple p x c v) (hle : v ≤ u) :
    Multiple p x (diff p a c) (u - v) := by
  have hlt := h.lt
  have hlt' := h'.lt
  have hsum : diff p a c + c = if a < c then a + p else a := by
    rw [diff]
    split <;> omega
  have hmultiple : (if a < c then a + p else a) * x ≡ u [MOD p] := by
    split
    · rw [Nat.add_mul]
      exact (Nat.ModEq.symm (Nat.left_modEq_add_iff.mpr (Nat.dvd_mul_right p x))).trans h.modEq
    · exact h.modEq
  refine ⟨by rw [diff]; split <;> omega, Nat.ModEq.add_right_cancel h'.modEq ?_⟩
  rw [← Nat.add_mul, hsum, Nat.sub_add_cancel hle]
  exact hmultiple

/-- Two coprime numbers with their coefficients. -/
structure Pair (p x u v a c : Nat) : Prop where
  left : Multiple p x a u
  right : Multiple p x c v
  coprime : Nat.Coprime u v
  pos : 0 < v

theorem Pair.start (hp : p.Prime) (hx : 0 < x) (hlt : x < p) : Pair p x x p 1 0 where
  left := ⟨hp.one_lt, by rw [Nat.one_mul]⟩
  right := ⟨hp.pos, by rw [Nat.zero_mul]; exact (Nat.modEq_zero_iff_dvd.mpr (Nat.dvd_refl p)).symm⟩
  coprime := (Nat.coprime_of_lt_prime hx.ne' hlt hp).symm
  pos := hp.pos

/-- Subtract the second number. -/
theorem Pair.sub_left (h : Pair p x u v a c) (hle : v ≤ u) : Pair p x (u - v) v (diff p a c) c where
  left := h.left.sub h.right hle
  right := h.right
  coprime := (Nat.coprime_sub_self_left hle).mpr h.coprime
  pos := h.pos

/-- Subtract the first number. -/
theorem Pair.sub_right (h : Pair p x u v a c) (hlt : u < v) :
    Pair p x u (v - u) a (diff p c a) where
  left := h.left
  right := h.right.sub h.left hlt.le
  coprime := ((Nat.coprime_sub_self_left hlt.le).mpr h.coprime.symm).symm
  pos := Nat.sub_pos_of_lt hlt

/-- At the end, the coefficient is an inverse. -/
theorem Pair.inverse (h : Pair p x 0 v a c) (hp : 1 < p) : 0 < c ∧ c < p ∧ c * x ≡ 1 [MOD p] := by
  have hv : v = 1 := (Nat.coprime_zero_left v).mp h.coprime
  have hone := h.right.modEq
  rw [hv] at hone
  refine ⟨Nat.pos_of_ne_zero fun hc => ?_, h.right.lt, hone⟩
  rw [hc, Nat.zero_mul, Nat.ModEq, Nat.zero_mod, Nat.mod_eq_of_lt hp] at hone
  exact Nat.zero_ne_one hone

end BinaryEuclid

end Zuckerserv

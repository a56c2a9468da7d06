import Mathlib
import Zuckerserv.Lib.Lucas

/-!
# The prime of P-192, and folding a product

The numbers behind `gfield` of `shared/crypto.cpp`, for `GF_BITS == 192`.

* `p192` — the prime `2^192 - 2^64 - 1`; `prime_p192` checks a chain of certificates.
* `addMod` — one addition of `gfield`: the sum, less `P` when it is `P` or more.
* `fold192` — the reduction of a product: its words 3, 4 and 5 are folded back, each with
  one `addMod`.
* `fold192_modEq`, `fold192_lt_iff` — folding keeps the residue; it leaves a number below
  `P` except in one corner.
-/

namespace Zuckerserv

open Lucas

/-- The prime of the field. -/
def p192 : Nat := 2 ^ 192 - 2 ^ 64 - 1

/-! ## Primality -/

theorem prime_8413201 : Nat.Prime 8413201 := by norm_num

theorem prime_252396031 : Nat.Prime 252396031 := by
  refine prime_of_lucas 3 (show List.prod [2, 3, 5, 8413201] = _ by norm_num) ?_ ?_ ?_
  · simp only [List.forall_mem_cons, List.not_mem_nil, IsEmpty.forall_iff, implies_true,
      and_true, prime_8413201]
    norm_num
  · norm_num
    reduce_mod_char
  · simp only [List.forall_mem_cons, List.not_mem_nil, IsEmpty.forall_iff, implies_true, and_true]
    norm_num
    reduce_mod_char
    decide

theorem prime_455827231987 : Nat.Prime 455827231987 := by
  refine prime_of_lucas 2 (show List.prod [2, 3, 7, 43, 252396031] = _ by norm_num) ?_ ?_ ?_
  · simp only [List.forall_mem_cons, List.not_mem_nil, IsEmpty.forall_iff, implies_true,
      and_true, prime_252396031]
    norm_num
  · norm_num
    reduce_mod_char
  · simp only [List.forall_mem_cons, List.not_mem_nil, IsEmpty.forall_iff, implies_true, and_true]
    norm_num
    reduce_mod_char
    decide

theorem prime_5933177618131140283 : Nat.Prime 5933177618131140283 := by
  refine prime_of_lucas 2 (show List.prod [2, 3, 3, 723127, 455827231987] = _ by norm_num) ?_ ?_ ?_
  · simp only [List.forall_mem_cons, List.not_mem_nil, IsEmpty.forall_iff, implies_true,
      and_true, prime_455827231987]
    norm_num
  · norm_num
    reduce_mod_char
  · simp only [List.forall_mem_cons, List.not_mem_nil, IsEmpty.forall_iff, implies_true, and_true]
    norm_num
    reduce_mod_char
    decide

theorem prime_288626509448065367648032903 : Nat.Prime 288626509448065367648032903 := by
  refine prime_of_lucas 6
    (show List.prod [2, 3, 19, 19, 37, 607, 5933177618131140283] = _ by norm_num) ?_ ?_ ?_
  · simp only [List.forall_mem_cons, List.not_mem_nil, IsEmpty.forall_iff, implies_true,
      and_true, prime_5933177618131140283]
    norm_num
  · norm_num
    reduce_mod_char
  · simp only [List.forall_mem_cons, List.not_mem_nil, IsEmpty.forall_iff, implies_true, and_true]
    norm_num
    reduce_mod_char
    decide

theorem prime_108341181769254293 : Nat.Prime 108341181769254293 := by
  refine prime_of_lucas 2
    (show List.prod [2, 2, 17, 43, 2477, 54251, 275729] = _ by norm_num) ?_ ?_ ?_
  · simp only [List.forall_mem_cons, List.not_mem_nil, IsEmpty.forall_iff, implies_true, and_true]
    norm_num
  · norm_num
    reduce_mod_char
  · simp only [List.forall_mem_cons, List.not_mem_nil, IsEmpty.forall_iff, implies_true, and_true]
    norm_num
    reduce_mod_char
    decide

/-- **`P` is prime.** -/
theorem prime_p192 : Nat.Prime p192 := by
  show Nat.Prime 6277101735386680763835789423207666416083908700390324961279
  refine prime_of_lucas 11 (show List.prod [2, 59, 149309, 11393611, 108341181769254293,
    288626509448065367648032903] = _ by norm_num) ?_ ?_ ?_
  · simp only [List.forall_mem_cons, List.not_mem_nil, IsEmpty.forall_iff, implies_true,
      and_true, prime_108341181769254293, prime_288626509448065367648032903]
    norm_num
  · norm_num
    reduce_mod_char
  · simp only [List.forall_mem_cons, List.not_mem_nil, IsEmpty.forall_iff, implies_true, and_true]
    norm_num
    reduce_mod_char
    decide

/-! ## Folding -/

/-- What `gfield::add` computes. -/
def addMod (a s : Nat) : Nat := if a + s < p192 then a + s else a + s - p192

/-- What `reduce` computes. -/
def fold192 (n : Nat) : Nat :=
  if n < 2 ^ 192 then addMod (n % 2 ^ 192) 0
  else
    let r := addMod (n % 2 ^ 192) (n / 2 ^ 192 % 2 ^ 64 * (1 + 2 ^ 64))
    if n < 2 ^ 256 then r
    else
      let r := addMod r (n / 2 ^ 256 % 2 ^ 64 * (2 ^ 64 + 2 ^ 128))
      if n < 2 ^ 320 then r
      else addMod r (n / 2 ^ 320 % 2 ^ 64 * (1 + 2 ^ 64 + 2 ^ 128))

theorem addMod_modEq (a s : Nat) : addMod a s ≡ a + s [MOD p192] := by
  show _ % _ = _ % _
  rw [addMod]
  split_ifs with h
  · rfl
  · rw [← Nat.mod_eq_sub_mod (by omega)]

theorem addMod_lt {a s : Nat} (h : a + s < 2 * p192) : addMod a s < p192 := by
  rw [addMod]
  split_ifs <;> omega

/-- The four parts of a product of two numbers of 192 bits. -/
theorem words {n : Nat} (hn : n < 2 ^ 384) :
    n = n % 2 ^ 192 + 2 ^ 192 * (n / 2 ^ 192 % 2 ^ 64) + 2 ^ 256 * (n / 2 ^ 256 % 2 ^ 64) +
      2 ^ 320 * (n / 2 ^ 320 % 2 ^ 64) := by
  have h1 : n / 2 ^ 256 = n / 2 ^ 192 / 2 ^ 64 := by
    rw [Nat.div_div_eq_div_mul, ← pow_add]
  have h2 : n / 2 ^ 320 = n / 2 ^ 256 / 2 ^ 64 := by
    rw [Nat.div_div_eq_div_mul, ← pow_add]
  omega

section Fold

variable {n : Nat}

/-- The words folded back are congruent to the number they come from. -/
theorem words_modEq (hn : n < 2 ^ 384) :
    n % 2 ^ 192 + n / 2 ^ 192 % 2 ^ 64 * (1 + 2 ^ 64) + n / 2 ^ 256 % 2 ^ 64 * (2 ^ 64 + 2 ^ 128) +
      n / 2 ^ 320 % 2 ^ 64 * (1 + 2 ^ 64 + 2 ^ 128) ≡ n [MOD p192] := by
  have h192 : (2 ^ 192 : Nat) = p192 + (1 + 2 ^ 64) := by decide
  have h256 : (2 ^ 256 : Nat) = p192 * 2 ^ 64 + (2 ^ 64 + 2 ^ 128) := by decide
  have h320 : (2 ^ 320 : Nat) = p192 * (2 ^ 128 + 1) + (1 + 2 ^ 64 + 2 ^ 128) := by
    rw [show (2 : Nat) ^ 320 = 2 ^ 128 * 2 ^ 192 by rw [← pow_add]]
    decide
  have hw := words hn
  generalize n % 2 ^ 192 = t, n / 2 ^ 192 % 2 ^ 64 = w3, n / 2 ^ 256 % 2 ^ 64 = w4,
    n / 2 ^ 320 % 2 ^ 64 = w5 at hw ⊢
  have hn : n = t + w3 * (1 + 2 ^ 64) + w4 * (2 ^ 64 + 2 ^ 128) + w5 * (1 + 2 ^ 64 + 2 ^ 128) +
      p192 * (w3 + 2 ^ 64 * w4 + (2 ^ 128 + 1) * w5) := by
    rw [hw, h192, h256, h320]
    ring
  rw [hn]
  exact (Nat.add_mul_mod_self_left _ _ _).symm

/-- Folding keeps the residue. -/
theorem fold192_modEq (hn : n < 2 ^ 384) : fold192 n ≡ n [MOD p192] := by
  have hwords := words_modEq hn
  have hw := words hn
  rw [fold192]
  split_ifs with h192 h256 h320
  · rw [show n % 2 ^ 192 = n by omega]
    exact addMod_modEq n 0
  · rw [show n / 2 ^ 256 % 2 ^ 64 = 0 by omega, show n / 2 ^ 320 % 2 ^ 64 = 0 by omega] at hwords
    simp only [zero_mul, add_zero] at hwords
    exact (addMod_modEq _ _).trans hwords
  · rw [show n / 2 ^ 320 % 2 ^ 64 = 0 by omega] at hwords
    simp only [zero_mul, add_zero] at hwords
    exact ((addMod_modEq _ _).trans ((addMod_modEq _ _).add_right _)).trans hwords
  · exact ((addMod_modEq _ _).trans (((addMod_modEq _ _).trans
      ((addMod_modEq _ _).add_right _)).add_right _)).trans hwords

/-- After the first word the number is below `P`. -/
theorem addMod_first {t w : Nat} (ht : t < 2 ^ 192) (hw : w < 2 ^ 64) :
    addMod t (w * (1 + 2 ^ 64)) < p192 := by
  refine addMod_lt ?_
  unfold p192
  omega

/-- After the second word it is at most `P`, and `P` only for the largest word. -/
theorem addMod_second {r w : Nat} (hr : r < p192) (hw : w < 2 ^ 64) :
    addMod r (w * (2 ^ 64 + 2 ^ 128)) ≤ p192 ∧
      (addMod r (w * (2 ^ 64 + 2 ^ 128)) = p192 → w = 2 ^ 64 - 1) := by
  unfold addMod p192 at *
  split_ifs <;> omega

/-- After the third word it is at most `P + 2^64`, and `P` or more only for the largest word. -/
theorem addMod_third {r w : Nat} (hr : r ≤ p192) (hw : w < 2 ^ 64) :
    (w < 2 ^ 64 - 1 → addMod r (w * (1 + 2 ^ 64 + 2 ^ 128)) < p192) ∧
      (w = 2 ^ 64 - 1 → addMod r (w * (1 + 2 ^ 64 + 2 ^ 128)) = r + 2 ^ 64) := by
  unfold addMod p192 at *
  split_ifs <;> omega

/-- **When folding reduces.** For a product of two numbers below `P`, the result is below `P`
unless the highest word is all ones and the residue is below `2^64`. -/
theorem fold192_lt_iff (hn : n ≤ (p192 - 1) * (p192 - 1)) (h0 : n % p192 = 0 → n = 0) :
    fold192 n < p192 ↔ ¬ (2 ^ 384 - 2 ^ 320 ≤ n ∧ n % p192 < 2 ^ 64) := by
  have hbound : (p192 - 1) * (p192 - 1) < 2 ^ 384 - 2 ^ 256 := by
    rw [show (2 : Nat) ^ 384 = 2 ^ 192 * 2 ^ 192 by rw [← pow_add]]
    decide
  have hw := words (show n < 2 ^ 384 by omega)
  have hmod : fold192 n % p192 = n % p192 := fold192_modEq (by omega)
  have hp : p192 = 2 ^ 192 - 2 ^ 64 - 1 := rfl
  have h1 : addMod (n % 2 ^ 192) (n / 2 ^ 192 % 2 ^ 64 * (1 + 2 ^ 64)) < p192 :=
    addMod_first (by omega) (by omega)
  simp only [fold192] at hmod ⊢
  split_ifs at hmod ⊢ with h192 h256 h320
  · have hlt : addMod (n % 2 ^ 192) 0 < p192 := addMod_lt (by omega)
    exact iff_of_true hlt (by omega)
  · exact iff_of_true h1 (by omega)
  · obtain ⟨h2, -⟩ := addMod_second (w := n / 2 ^ 256 % 2 ^ 64) h1 (by omega)
    have hne : addMod (addMod (n % 2 ^ 192) (n / 2 ^ 192 % 2 ^ 64 * (1 + 2 ^ 64)))
        (n / 2 ^ 256 % 2 ^ 64 * (2 ^ 64 + 2 ^ 128)) ≠ p192 := by
      -- `P` itself would mean that `P` divides `n`
      intro heq
      rw [heq, Nat.mod_self] at hmod
      have := h0 hmod.symm
      omega
    exact iff_of_true (lt_of_le_of_ne h2 hne) (by omega)
  · obtain ⟨h2, htop⟩ := addMod_second (w := n / 2 ^ 256 % 2 ^ 64) h1 (by omega)
    generalize addMod (addMod (n % 2 ^ 192) (n / 2 ^ 192 % 2 ^ 64 * (1 + 2 ^ 64)))
        (n / 2 ^ 256 % 2 ^ 64 * (2 ^ 64 + 2 ^ 128)) = r at *
    obtain ⟨hsmall, hlarge⟩ := addMod_third (w := n / 2 ^ 320 % 2 ^ 64) h2 (by omega)
    by_cases hn384 : 2 ^ 384 - 2 ^ 320 ≤ n
    · have hr : r ≠ p192 := by
        -- then the two highest words are all ones, and `n` is too large for a product
        intro heq
        have := htop heq
        omega
      have hval := hlarge (by omega)
      rw [hval] at hmod ⊢
      by_cases hlt : r + 2 ^ 64 < p192
      · rw [Nat.mod_eq_of_lt hlt] at hmod
        exact iff_of_true hlt (by omega)
      · rw [Nat.mod_eq_sub_mod (by omega), Nat.mod_eq_of_lt (by omega)] at hmod
        exact iff_of_false hlt (by omega)
    · exact iff_of_true (hsmall (by omega)) (by omega)

end Fold

end Zuckerserv

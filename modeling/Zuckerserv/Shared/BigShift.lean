import Zuckerserv.Shared.BigInt

/-!
# Shifting big integers

A digit is promoted to `int` before it is shifted, so that a shift by all of its bits is one. The
shift to the right goes over the digits from the lowest one up, and writes behind where it reads.

* `hasbit`, `rshift` — a bit of a big integer, and the shift to the right.
* `hasbit_eq` — the bit is that of the number.
* `val_rshift`, `normal_rshift` — the shift is a division by a power of two.
-/

namespace Zuckerserv

open Loop DigitSum

namespace BigInt

/-! ## The code -/

/-- `digit(t>>n)`. -/
def shr (t : UInt16) (n : Nat) : UInt16 := (t.toUInt32 >>> UInt32.ofNat n).toUInt16

/-- `digit((t<<n) | carry)`. -/
def shlOr (t : UInt16) (n : Nat) (carry : UInt16) : UInt16 :=
  ((t.toUInt32 <<< UInt32.ofNat n) ||| carry.toUInt32).toUInt16

/-- `bool hasbit(int n) const`. -/
def hasbit (x : BigInt) (n : Nat) : Bool :=
  n / 16 < x.len ∧ (x.digits (n / 16)).toNat / 2 ^ (n % 16) % 2 = 1

/-- The loop of `rshift`, with `n` between 1 and 16: the carry, and the digits. -/
def rshiftLoop (x : BigInt) (dig n : Nat) : UInt16 × Digits :=
  loopi (x.len - dig - 1) (fun i s =>
    let tmp := s.2 (dig + 1 + i)
    (shr tmp n, s.2.write i (shlOr tmp (16 - n) s.1))) (shr (x.digits dig) n, x.digits)

/-- `bigint &rshift(int n)`. -/
def rshift (x : BigInt) (n : Nat) : BigInt :=
  if x.len = 0 ∨ n = 0 then x
  else if n ≥ x.len * 16 then { x with len := 0 }
  else
    let dig := (n - 1) / 16
    let n := (n - 1) % 16 + 1
    let s := rshiftLoop x dig n
    shrink ⟨x.len - (dig + n / 16), s.2.write (x.len - dig - 1) s.1⟩

/-! ## One digit -/

section Digit

variable {n : Nat} (t carry : UInt16)

theorem toNat_shr (hn : n ≤ 16) : (shr t n).toNat = t.toNat / 2 ^ n := by
  have ht := t.toNat_lt
  have hle : t.toNat / 2 ^ n ≤ t.toNat := Nat.div_le_self _ _
  have hmod : n % 4294967296 % 32 = n := by omega
  rw [shr, UInt32.toNat_toUInt16, UInt32.toNat_shiftRight, UInt16.toNat_toUInt32,
    UInt32.toNat_ofNat', hmod, Nat.shiftRight_eq_div_pow, Nat.mod_eq_of_lt (by omega)]

/-- The low bits are those of the carry; the high ones are lost. -/
theorem toNat_shlOr (hn : n ≤ 16) (hcarry : carry.toNat < 2 ^ n) :
    (shlOr t n carry).toNat + 65536 * (t.toNat / 2 ^ (16 - n)) = t.toNat * 2 ^ n + carry.toNat := by
  have ht := t.toNat_lt
  have hpow : 2 ^ n ≤ 2 ^ 16 := Nat.pow_le_pow_right (by decide) hn
  have hlt : t.toNat * 2 ^ n < 2 ^ 32 := by nlinarith
  have hmod : n % 4294967296 % 32 = n := by omega
  have hsplit : 65536 = 2 ^ n * 2 ^ (16 - n) := by
    rw [← pow_add, Nat.add_sub_cancel' hn]
    norm_num
  have hhigh : (t.toNat * 2 ^ n + carry.toNat) / 65536 = t.toNat / 2 ^ (16 - n) := by
    rw [hsplit, ← Nat.div_div_eq_div_mul, Nat.add_comm,
      Nat.add_mul_div_right _ _ (Nat.two_pow_pos n), Nat.div_eq_of_lt hcarry, Nat.zero_add]
  have hword : (t.toUInt32 <<< UInt32.ofNat n ||| carry.toUInt32).toNat =
      t.toNat * 2 ^ n + carry.toNat := by
    rw [UInt32.toNat_or, UInt32.toNat_shiftLeft, UInt16.toNat_toUInt32, UInt16.toNat_toUInt32,
      UInt32.toNat_ofNat', hmod, Nat.shiftLeft_eq, Nat.mod_eq_of_lt hlt, ← Nat.shiftLeft_eq,
      ← Nat.shiftLeft_add_eq_or_of_lt hcarry]
  rw [shlOr, UInt32.toNat_toUInt16, hword, ← hhigh]
  exact Nat.mod_add_div _ _

end Digit

/-! ## The digits -/

/-- What holds in the loop: the digits so far and the carry are the part that has been read, without
its lowest bits; and the digits that have not been read are still there. -/
structure ShiftInv (x : BigInt) (dig n i : Nat) (s : UInt16 × Digits) : Prop where
  sum : s.2.sum i + s.1.toNat * 65536 ^ i =
    Digits.sum (fun j => x.digits (dig + j)) (i + 1) / 2 ^ n
  carry_lt : s.1.toNat < 2 ^ (16 - n)
  above : ∀ j, i ≤ j → s.2 j = x.digits j

theorem shiftInv_rshiftLoop (x : BigInt) (dig : Nat) {n : Nat} (hpos : 0 < n) (hn : n ≤ 16) :
    ShiftInv x dig n (x.len - dig - 1) (rshiftLoop x dig n) := by
  have hcarry (t : UInt16) : (shr t n).toNat < 2 ^ (16 - n) := by
    rw [toNat_shr t hn, Nat.div_lt_iff_lt_mul (Nat.two_pow_pos n), ← pow_add,
      Nat.sub_add_cancel hn]
    exact t.toNat_lt
  refine loopi_inv ⟨?_, hcarry _, fun _ _ => rfl⟩ fun i _ s hs => ?_
  · dsimp only
    rw [toNat_shr _ hn, Digits.sum_succ]
    simp [Digits.sum]
  · obtain ⟨carry, d⟩ := s
    have hread : d (dig + 1 + i) = x.digits (dig + (i + 1)) := by
      rw [Nat.add_right_comm dig 1 i, Nat.add_assoc]
      exact hs.above _ (by omega)
    have hback : 16 - (16 - n) = n := by omega
    have hlow := toNat_shlOr (x.digits (dig + (i + 1))) carry (Nat.sub_le 16 n) hs.carry_lt
    have hsum := hs.sum
    rw [hback] at hlow
    refine ⟨?_, hcarry _, fun j hj => ?_⟩
    · have hpow : 65536 ^ (i + 1) = 65536 ^ i * 2 ^ (16 - n) * 2 ^ n := by
        rw [pow_succ, Nat.mul_assoc, ← pow_add, Nat.sub_add_cancel hn]
        norm_num
      have hdiv : Digits.sum (fun j => x.digits (dig + j)) (i + 1 + 1) / 2 ^ n =
          Digits.sum (fun j => x.digits (dig + j)) (i + 1) / 2 ^ n +
            (x.digits (dig + (i + 1))).toNat * (65536 ^ i * 2 ^ (16 - n)) := by
        rw [Digits.sum_succ, hpow, ← Nat.mul_assoc, Nat.add_mul_div_right _ _ (Nat.two_pow_pos n)]
      dsimp only at hsum ⊢
      rw [hdiv, ← hsum, hread, Digits.sum_write_succ, toNat_shr _ hn, pow_succ]
      linear_combination 65536 ^ i * hlow
    · dsimp only
      rw [Digits.write, if_neg (by omega)]
      exact hs.above j (by omega)

/-! ## The numbers -/

theorem pow_digits_eq (k : Nat) : 65536 ^ k = 2 ^ (16 * k) := by
  rw [pow_mul]
  norm_num

/-- The digits from some place on. -/
theorem val_div (x : BigInt) {k : Nat} (hk : k ≤ x.len) :
    x.val / 65536 ^ k = Digits.sum (fun j => x.digits (k + j)) (x.len - k) := by
  have hsplit := Digits.sum_add x.digits k (x.len - k)
  rw [Nat.add_sub_cancel' hk] at hsplit
  rw [val, hsplit, Nat.add_mul_div_left _ _ (Nat.pow_pos (by decide)),
    Nat.div_eq_of_lt (Digits.sum_lt _ _), Nat.zero_add]

theorem val_div_eq_zero (x : BigInt) {n : Nat} (hn : x.len * 16 ≤ n) : x.val / 2 ^ n = 0 := by
  refine Nat.div_eq_of_lt (Nat.lt_of_lt_of_le x.val_lt ?_)
  rw [pow_digits_eq]
  exact Nat.pow_le_pow_right (by decide) (by omega)

/-- The bit of the number. -/
theorem hasbit_eq (x : BigInt) (n : Nat) : x.hasbit n = true ↔ x.val / 2 ^ n % 2 = 1 := by
  rw [hasbit, decide_eq_true_eq]
  by_cases hlt : n / 16 < x.len
  · have hbits : 2 ^ n = 65536 ^ (n / 16) * 2 ^ (n % 16) := by
      rw [pow_digits_eq, ← pow_add, Nat.div_add_mod]
    have hsplit := Digits.sum_add (fun j => x.digits (n / 16 + j)) 1 (x.len - n / 16 - 1)
    have hlen : 1 + (x.len - n / 16 - 1) = x.len - n / 16 := by omega
    have hone : Digits.sum (fun j => x.digits (n / 16 + j)) 1 = (x.digits (n / 16)).toNat := by
      simp [Digits.sum, digitSum]
    have heven : 65536 = 2 ^ (n % 16) * (2 * 2 ^ (15 - n % 16)) := by
      rw [← pow_succ', ← pow_add]
      have : n % 16 + (15 - n % 16 + 1) = 16 := by omega
      rw [this]
      norm_num
    rw [hlen, hone, pow_one] at hsplit
    rw [and_iff_right hlt, hbits, ← Nat.div_div_eq_div_mul, x.val_div hlt.le, hsplit]
    generalize Digits.sum _ _ = rest
    rw [heven, Nat.mul_assoc, Nat.add_mul_div_left _ _ (Nat.two_pow_pos _), Nat.mul_assoc,
      Nat.add_mul_mod_self_left]
  · refine iff_of_false (fun h => hlt h.1) ?_
    rw [x.val_div_eq_zero (by omega)]
    decide

/-- The digits behind the loop. -/
theorem val_rshiftLoop (x : BigInt) {dig n : Nat} (hdig : dig < x.len) (hpos : 0 < n)
    (hn : n ≤ 16) :
    (shrink ⟨x.len - (dig + n / 16), (rshiftLoop x dig n).2.write (x.len - dig - 1)
      (rshiftLoop x dig n).1⟩).val = x.val / 2 ^ (16 * dig + n) := by
  have hloop := shiftInv_rshiftLoop x dig hpos hn
  have hsum := hloop.sum
  have hcarry := hloop.carry_lt
  have hlen : x.len - dig - 1 + 1 = x.len - dig := by omega
  rw [val_shrink, pow_add, ← pow_digits_eq, ← Nat.div_div_eq_div_mul, x.val_div hdig.le, ← hlen,
    ← hsum, val]
  dsimp only
  by_cases hfull : n = 16
  · have hzero : (rshiftLoop x dig n).1.toNat = 0 := by
      rw [hfull] at hcarry ⊢
      exact Nat.lt_one_iff.mp hcarry
    have hkept : x.len - (dig + n / 16) = x.len - dig - 1 := by omega
    rw [hzero, Nat.zero_mul, Nat.add_zero, hkept]
    exact Digits.sum_write_of_le _ _ le_rfl
  · have hkept : x.len - (dig + n / 16) = x.len - dig - 1 + 1 := by omega
    rw [hkept]
    exact Digits.sum_write_succ _ _ _

/-- **The shift** is a division. -/
theorem val_rshift (x : BigInt) (n : Nat) : (x.rshift n).val = x.val / 2 ^ n := by
  rw [rshift]
  split_ifs with h hge
  · rcases h with h | h
    · have hzero : x.val = 0 := by
        rw [val, h]
        rfl
      rw [hzero, Nat.zero_div]
    · rw [h, pow_zero, Nat.div_one]
  · rw [x.val_div_eq_zero hge]
    rfl
  · have hbits : 16 * ((n - 1) / 16) + ((n - 1) % 16 + 1) = n := by omega
    have hshift := val_rshiftLoop x (show (n - 1) / 16 < x.len by omega)
      (Nat.succ_pos ((n - 1) % 16)) (Nat.mod_lt _ (by decide))
    rw [hbits] at hshift
    exact hshift

theorem normal_rshift {x : BigInt} (hx : x.Normal) (n : Nat) : (x.rshift n).Normal := by
  rw [rshift]
  split_ifs
  · exact hx
  · exact fun n hn => absurd hn (Nat.succ_ne_zero n).symm
  · exact normal_shrink _

end BigInt

end Zuckerserv

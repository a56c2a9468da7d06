import Zuckerserv.Shared.BigShift

/-!
# Shifting big integers to the left

The shift goes over the digits from the highest one down, and carries the bits that leave a digit
into the next digit that it comes to, which is the one below.

* `lshift` — the shift.
* `shiftInv_lshiftLoop` — the digits that the loop makes.
* `lshift_correct_iff` — when the shift is a multiplication.
-/

namespace Zuckerserv

open Loop DigitSum

namespace BigInt

/-! ## The code -/

/-- The loop of `lshift`: the carry, and the digits. -/
def lshiftLoop (x : BigInt) (dig n : Nat) : UInt16 × Digits :=
  loopirev x.len (fun i s =>
    let tmp := s.2 i
    (shr tmp (16 - n), s.2.write (i + dig) (shlOr tmp n s.1))) (0, x.digits)

/-- `bigint &lshift(int n)`. -/
def lshift (x : BigInt) (n : Nat) : BigInt :=
  if x.len = 0 ∨ n = 0 then x
  else
    let dig := n / 16
    let n := n % 16
    let s := lshiftLoop x dig n
    let len := x.len + dig
    let y : BigInt := if s.1 ≠ 0 then ⟨len + 1, s.2.write len s.1⟩ else ⟨len, s.2⟩
    if dig ≠ 0 then { y with digits := y.digits.memset0 0 dig } else y

/-! ## The loop -/

/-- The bits that leave the digit at `i`. -/
def out (x : BigInt) (n i : Nat) : UInt16 := shr (x.digits i) (16 - n)

/-- The bits that the loop carries into the digit below `i`. -/
def carryAbove (x : BigInt) (n i : Nat) : UInt16 := if i < x.len then x.out n i else 0

/-- The bits that belong into the digit at `i`. -/
def carryBelow (x : BigInt) (n i : Nat) : UInt16 := if i = 0 then 0 else x.out n (i - 1)

/-- The digits moved up by `dig` places, with the given carries, and a digit on top of them. -/
def shifted (x : BigInt) (dig n : Nat) (carry : Nat → UInt16) (top : UInt16) : Digits := fun j =>
  if j < dig then 0
  else if j < x.len + dig then shlOr (x.digits (j - dig)) n (carry (j - dig))
  else if j = x.len + dig then top else 0

/-- What holds in the loop when the digits from `i` on are done. -/
structure LeftInv (x : BigInt) (dig n i : Nat) (s : UInt16 × Digits) : Prop where
  carry : s.1 = x.carryAbove n i
  done : ∀ j, i ≤ j → j < x.len →
    s.2 (j + dig) = shlOr (x.digits j) n (x.carryAbove n (j + 1))
  left : ∀ j < i, s.2 j = x.digits j

theorem leftInv_lshiftLoop (x : BigInt) (dig n : Nat) :
    LeftInv x dig n 0 (lshiftLoop x dig n) := by
  refine loopirev_inv ⟨?_, fun j hj hlt => absurd hlt (by omega), fun _ _ => rfl⟩
    fun i hi s hs => ?_
  · rw [carryAbove, if_neg (lt_irrefl _)]
  · have hread := hs.left i (Nat.lt_succ_self i)
    refine ⟨?_, fun j hj hlt => ?_, fun j hj => ?_⟩
    · rw [carryAbove, if_pos hi, out]
      dsimp only
      rw [hread]
    · dsimp only
      rw [Digits.write]
      split_ifs with heq
      · have hji : j = i := by omega
        rw [hji, hread, hs.carry]
      · exact hs.done j (by omega) hlt
    · dsimp only
      rw [Digits.write, if_neg (by omega)]
      exact hs.left j (by omega)

/-- The digits of the shift. -/
def shiftedDown (x : BigInt) (dig n : Nat) : Digits :=
  x.shifted dig n (fun i => x.carryAbove n (i + 1)) (x.out n 0)

section Result

variable {x : BigInt} {N : Nat} (hx : x.len ≠ 0) (hN : N ≠ 0)
include hx hN

theorem lshift_spec :
    (x.lshift N).len = x.len + N / 16 + (if x.out (N % 16) 0 = 0 then 0 else 1) ∧
      ∀ j < (x.lshift N).len, (x.lshift N).digits j = x.shiftedDown (N / 16) (N % 16) j := by
  have hinv := leftInv_lshiftLoop x (N / 16) (N % 16)
  have hclear (y : BigInt) : (if N / 16 ≠ 0 then { y with digits := y.digits.memset0 0 (N / 16) }
      else y) = { y with digits := y.digits.memset0 0 (N / 16) } := by
    split_ifs with h
    · rfl
    · have hnone : y.digits.memset0 0 (N / 16) = y.digits := by
        funext j
        exact if_neg (by omega)
      rw [hnone]
  have hcarry : (x.lshiftLoop (N / 16) (N % 16)).1 = x.out (N % 16) 0 := by
    rw [hinv.carry, carryAbove, if_pos (by omega)]
  have hdone (j : Nat) (hj : N / 16 ≤ j) (hlt : j < x.len + N / 16) :
      (x.lshiftLoop (N / 16) (N % 16)).2 j = x.shiftedDown (N / 16) (N % 16) j := by
    have h := hinv.done (j - N / 16) (Nat.zero_le _) (by omega)
    rw [Nat.sub_add_cancel hj] at h
    rw [h, shiftedDown, shifted, if_neg (by omega), if_pos hlt]
  have hzero (d : Digits) (j : Nat) (hj : j < N / 16) :
      d.memset0 0 (N / 16) j = x.shiftedDown (N / 16) (N % 16) j := by
    rw [Digits.memset0, if_pos (by omega), shiftedDown, shifted, if_pos hj]
  have hkept (d : Digits) (j : Nat) (hj : N / 16 ≤ j) : d.memset0 0 (N / 16) j = d j :=
    if_neg (by omega)
  rw [lshift, if_neg (by omega)]
  dsimp only
  rw [hclear, hcarry]
  by_cases hout : x.out (N % 16) 0 = 0
  · rw [if_neg (not_not.mpr hout), if_pos hout]
    refine ⟨rfl, fun j (hj : j < x.len + N / 16) => ?_⟩
    rcases Nat.lt_or_ge j (N / 16) with hlow | hhigh
    · exact hzero _ j hlow
    · exact (hkept _ j hhigh).trans (hdone j hhigh hj)
  · rw [if_pos hout, if_neg hout]
    refine ⟨rfl, fun j (hj : j < x.len + N / 16 + 1) => ?_⟩
    rcases Nat.lt_or_ge j (N / 16) with hlow | hhigh
    · exact hzero _ j hlow
    · refine (hkept _ j hhigh).trans ?_
      show Digits.write _ _ _ j = _
      rw [Digits.write]
      split_ifs with htop
      · rw [shiftedDown, shifted, if_neg (by omega), if_neg (by omega), if_pos htop]
      · exact hdone j hhigh (by omega)

theorem val_lshift :
    (x.lshift N).val = (x.shiftedDown (N / 16) (N % 16)).sum (x.len + N / 16 + 1) := by
  obtain ⟨hlen, hdigits⟩ := lshift_spec hx hN
  rw [val, Digits.sum_congr hdigits, hlen]
  split_ifs with hout
  · rw [Digits.sum_succ, shiftedDown, shifted, if_neg (by omega), if_neg (by omega), if_pos rfl,
      hout]
    simp
  · rfl

end Result

/-! ## The multiplication -/

theorem out_lt (x : BigInt) {n : Nat} (hn : n < 16) (i : Nat) : (x.out n i).toNat < 2 ^ n := by
  rw [out, toNat_shr _ (Nat.sub_le 16 n), Nat.div_lt_iff_lt_mul (Nat.two_pow_pos _), ← pow_add,
    Nat.add_sub_cancel' hn.le]
  exact UInt16.toNat_lt _

theorem carryBelow_lt (x : BigInt) {n : Nat} (hn : n < 16) (i : Nat) :
    (x.carryBelow n i).toNat < 2 ^ n := by
  rw [carryBelow]
  split_ifs
  · exact Nat.two_pow_pos n
  · exact out_lt x hn _

theorem carryAbove_lt (x : BigInt) {n : Nat} (hn : n < 16) (i : Nat) :
    (x.carryAbove n i).toNat < 2 ^ n := by
  rw [carryAbove]
  split_ifs
  · exact out_lt x hn _
  · exact Nat.two_pow_pos n

/-- The digits of the product. -/
def shiftedUp (x : BigInt) (dig n : Nat) : Digits :=
  x.shifted dig n (x.carryBelow n) (x.out n (x.len - 1))

/-- With the carries going up, the digits are those of the product. -/
theorem sum_shiftedUp {x : BigInt} (hx : x.len ≠ 0) (dig : Nat) {n : Nat} (hn : n < 16) :
    (x.shiftedUp dig n).sum (x.len + dig + 1) = x.val * 2 ^ (16 * dig + n) := by
  have hlow (k : Nat) (hk : k ≤ x.len) :
      (x.shiftedUp dig n).sum (k + dig) + (x.carryBelow n k).toNat * 65536 ^ (k + dig) =
        x.digits.sum k * 2 ^ (16 * dig + n) := by
    induction k with
    | zero =>
      have hzero (j : Nat) (_ : 0 ≤ j) (hj : j < 0 + dig) : x.shiftedUp dig n j = 0 := by
        rw [shiftedUp, shifted, if_pos (by omega)]
      rw [Digits.sum_of_zeros (Nat.zero_le _) hzero, carryBelow, if_pos rfl]
      simp [Digits.sum]
    | succ k ih =>
      have hdigit : x.shiftedUp dig n (k + dig) = shlOr (x.digits k) n (x.carryBelow n k) := by
        rw [shiftedUp, shifted, if_neg (by omega), if_pos (by omega), Nat.add_sub_cancel]
      have hcarry : x.carryBelow n (k + 1) = shr (x.digits k) (16 - n) := by
        rw [carryBelow, if_neg (Nat.succ_ne_zero k), out, Nat.add_sub_cancel]
      have hword := toNat_shlOr (x.digits k) (x.carryBelow n k) hn.le (carryBelow_lt x hn k)
      have hplace : k + 1 + dig = k + dig + 1 := by omega
      have hpow : 65536 ^ (k + dig) = 65536 ^ k * 2 ^ (16 * dig) := by
        rw [pow_add, pow_digits_eq dig]
      rw [hplace, Digits.sum_succ, Digits.sum_succ, hdigit, hcarry,
        toNat_shr _ (Nat.sub_le 16 n), pow_succ]
      have hbefore := ih (by omega)
      rw [pow_add 2] at hbefore ⊢
      rw [hpow] at hbefore ⊢
      linear_combination hbefore + 65536 ^ k * 2 ^ (16 * dig) * hword
  have htop : x.shiftedUp dig n (x.len + dig) = x.carryBelow n x.len := by
    rw [shiftedUp, shifted, if_neg (by omega), if_neg (by omega), if_pos rfl, carryBelow,
      if_neg hx]
  rw [Digits.sum_succ, htop]
  exact hlow x.len le_rfl

theorem shlOr_inj {t c e : UInt16} {n : Nat} (hn : n < 16) (hc : c.toNat < 2 ^ n)
    (he : e.toNat < 2 ^ n) (heq : shlOr t n c = shlOr t n e) : c = e := by
  have h1 := toNat_shlOr t c hn.le hc
  have h2 := toNat_shlOr t e hn.le he
  rw [heq] at h1
  apply UInt16.toNat_inj.mp
  omega

/-- Shifts of the same digits agree when their carries do. -/
theorem shifted_eq_iff {x : BigInt} (dig : Nat) {n : Nat} {c e : Nat → UInt16} {top otop : UInt16}
    (hn : n < 16) (hc : ∀ i, (c i).toNat < 2 ^ n) (he : ∀ i, (e i).toNat < 2 ^ n) :
    (∀ j < x.len + dig + 1, x.shifted dig n c top j = x.shifted dig n e otop j) ↔
      (∀ i < x.len, c i = e i) ∧ top = otop := by
  constructor
  · intro h
    refine ⟨fun i hi => ?_, ?_⟩
    · have hi' := h (i + dig) (by omega)
      rw [shifted, shifted, if_neg (by omega), if_pos (by omega), if_neg (by omega),
        if_pos (by omega), Nat.add_sub_cancel] at hi'
      exact shlOr_inj hn (hc i) (he i) hi'
    · have htop := h (x.len + dig) (by omega)
      rwa [shifted, shifted, if_neg (by omega), if_neg (by omega), if_pos rfl, if_neg (by omega),
        if_neg (by omega), if_pos rfl] at htop
  · rintro ⟨hcarry, htop⟩ j -
    rw [shifted, shifted]
    split_ifs with hlow hmid
    · rfl
    · rw [hcarry _ (by omega)]
    · exact htop
    · rfl

/-- No bit ends up in a wrong digit: what leaves the digits at odd places is zero, and what leaves
those at even places is the same for all of them, and zero when the number of digits is even. -/
def Lossless (x : BigInt) (n : Nat) : Prop :=
  ∀ i < x.len, x.out n i = if i % 2 = 0 ∧ x.len % 2 = 1 then x.out n 0 else 0

/-- The carries go into the digits that they belong to. -/
theorem carries_eq_iff {x : BigInt} (hx : x.len ≠ 0) (n : Nat) :
    ((∀ i < x.len, x.carryAbove n (i + 1) = x.carryBelow n i) ∧ x.out n 0 = x.out n (x.len - 1)) ↔
      x.Lossless n := by
  constructor
  · rintro ⟨hcarry, htop⟩
    have hstep (i : Nat) (hi : i + 1 < x.len) :
        x.out n (i + 1) = if i = 0 then 0 else x.out n (i - 1) := by
      have h := hcarry i (by omega)
      rwa [carryAbove, if_pos hi, carryBelow] at h
    have hlast : x.len % 2 = 0 → x.out n (x.len - 2) = 0 := by
      intro heven
      have h := hcarry (x.len - 1) (by omega)
      rw [carryAbove, if_neg (by omega), carryBelow, if_neg (by omega)] at h
      have hplace : x.len - 1 - 1 = x.len - 2 := by omega
      rw [← hplace]
      exact h.symm
    have hparity (i : Nat) (hi : i < x.len) :
        x.out n i = if i % 2 = 0 then x.out n 0 else 0 := by
      induction i using Nat.strong_induction_on with
      | _ i ih =>
        match i with
        | 0 => rfl
        | 1 => exact hstep 0 hi
        | i + 2 =>
          have hmod : (i + 2) % 2 = i % 2 := by omega
          rw [hstep (i + 1) hi, if_neg (Nat.succ_ne_zero i), Nat.add_sub_cancel,
            ih i (by omega) (by omega), hmod]
    intro i hi
    rw [hparity i hi]
    by_cases hodd : x.len % 2 = 1
    · simp only [hodd, and_true]
    · have hzero := hparity (x.len - 2) (by omega)
      rw [hlast (by omega), if_pos (by omega)] at hzero
      rw [← hzero, ite_self, ite_self]
  · intro h
    refine ⟨fun i hi => ?_, ?_⟩
    · rw [carryAbove, carryBelow]
      split_ifs with hnext hfirst hfirst
      · rw [hfirst, h 1 (by omega), if_neg (by omega)]
      · have hmod : (i + 1) % 2 = (i - 1) % 2 := by omega
        rw [h (i + 1) hnext, h (i - 1) (by omega), hmod]
      · rfl
      · rw [h (i - 1) (by omega), if_neg (by omega)]
    · rw [h (x.len - 1) (by omega)]
      split_ifs with hodd
      · rfl
      · rw [h 0 (by omega), if_neg (by omega)]

theorem val_lshift_eq_iff {x : BigInt} (hx : x.len ≠ 0) {N : Nat} (hN : N ≠ 0) :
    (x.lshift N).val = x.val * 2 ^ N ↔ x.Lossless (N % 16) := by
  have hlt (d : Digits) : ∀ j < x.len + N / 16 + 1, (d j).toNat < 65536 := fun j _ => (d j).toNat_lt
  have hn : N % 16 < 16 := Nat.mod_lt _ (by decide)
  have hup := sum_shiftedUp hx (N / 16) hn
  rw [Nat.div_add_mod] at hup
  rw [val_lshift hx hN, ← hup, ← carries_eq_iff hx, ← shifted_eq_iff (N / 16) hn
    (fun i => carryAbove_lt x hn (i + 1)) (carryBelow_lt x hn)]
  constructor
  · intro hsum j hj
    exact UInt16.toNat_inj.mp (digitSum_inj (hlt _) (hlt _) hsum j hj)
  · exact fun h => Digits.sum_congr h

/-- Where the value is right, the result is normal. -/
theorem normal_lshift {x : BigInt} (hnormal : x.Normal) {N : Nat}
    (hval : (x.lshift N).val = x.val * 2 ^ N) : (x.lshift N).Normal := by
  by_cases hx : x.len = 0 ∨ N = 0
  · rw [lshift, if_pos hx]
    exact hnormal
  rw [not_or] at hx
  obtain ⟨hlen, hdigits⟩ := lshift_spec hx.1 hx.2
  intro k hk
  by_cases hout : x.out (N % 16) 0 = 0
  · rw [if_pos hout, Nat.add_zero] at hlen
    refine normal_of_pow_le (fun k hk => ?_) k hk
    have hbits : 65536 ^ (N / 16) ≤ 2 ^ N := by
      rw [pow_digits_eq]
      exact Nat.pow_le_pow_right (by decide) (Nat.mul_div_le N 16)
    have hplace : k = x.len - 1 + N / 16 := by omega
    rw [hval, hplace, pow_add]
    exact Nat.mul_le_mul (hnormal.pow_le (by omega)) hbits
  · rw [if_neg hout] at hlen
    have hplace : k = x.len + N / 16 := by omega
    rw [hdigits k (by omega), shiftedDown, shifted, if_neg (by omega), if_neg (by omega),
      if_pos hplace]
    exact hout

/-- **The shift** of a normal number is the multiplication by the power of two, with a normal
result, exactly when no bit ends up in a wrong digit. -/
theorem lshift_correct_iff {x : BigInt} (hnormal : x.Normal) (N : Nat) :
    ((x.lshift N).val = x.val * 2 ^ N ∧ (x.lshift N).Normal) ↔ x.Lossless (N % 16) := by
  rw [and_iff_left_of_imp (normal_lshift hnormal)]
  by_cases hx : x.len = 0
  · refine iff_of_true ?_ fun i hi => absurd hi (by omega)
    rw [lshift, if_pos (Or.inl hx), val, hx]
    exact (Nat.zero_mul _).symm
  by_cases hN : N = 0
  · have hzero (i : Nat) : x.out (N % 16) i = 0 := by
      have hlt := out_lt x (show N % 16 < 16 by omega) i
      rw [hN] at hlt ⊢
      exact UInt16.toNat_inj.mp (Nat.lt_one_iff.mp hlt)
    refine iff_of_true ?_ fun i _ => ?_
    · rw [lshift, if_pos (Or.inr hN), hN, pow_zero, Nat.mul_one]
    · rw [hzero, hzero, ite_self]
  · exact val_lshift_eq_iff hx hN

/-- A single digit is shifted correctly. -/
theorem lshift_correct_one_digit :
    ((BigInt.mk 1 fun _ => 0x8000).lshift 1).val = 0x10000 ∧
      ((BigInt.mk 1 fun _ => 0x8000).lshift 1).Normal := by
  have hnormal : Normal ⟨1, fun _ => 0x8000⟩ := fun _ _ => (by decide : (0x8000 : UInt16) ≠ 0)
  have hlossless : Lossless ⟨1, fun _ => 0x8000⟩ (1 % 16) := by
    intro i (hi : i < 1)
    obtain rfl : i = 0 := by omega
    rfl
  exact (lshift_correct_iff hnormal 1).mpr hlossless

/-- The bit that leaves the lower of two digits ends up above both of them. -/
theorem lshift_two_digits_wrong :
    let x : BigInt := ⟨2, fun i => if i = 0 then 0x8000 else 1⟩
    x.Normal ∧ x.val = 0x18000 ∧ (x.lshift 1).val = 0x100020000 ∧
      (x.lshift 1).val ≠ x.val * 2 ^ 1 := by
  refine ⟨fun n hn => ?_, by decide, by decide, by decide⟩
  obtain rfl : n = 1 := (Nat.succ.inj hn).symm
  decide

end BigInt

end Zuckerserv

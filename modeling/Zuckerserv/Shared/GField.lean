import Zuckerserv.Shared.BigInt
import Zuckerserv.Shared.P192

/-!
# The field of the NIST curve P-192

`gfield` of `shared/crypto.cpp` for `GF_BITS == 192`: arithmetic modulo
`P = 2^192 - 2^64 - 1` on the digits of `bigint`.

* `P` — the constant, parsed from its hexadecimal digits.
* `add`, `reduce`, `mul`, `square` — the operations of the source.
* `val_reduce` — `reduce` computes `fold192`.
* `mul_canonical_iff` — when the product that `mul` returns is the canonical
  representative.
-/

namespace Zuckerserv

open Loop DigitSum

namespace BigInt

/-! ## Parsing, and moving digits -/

/-- `isxdigit`. -/
def isxdigit (c : Char) : Bool :=
  ('0' ≤ c ∧ c ≤ '9') ∨ ('a' ≤ c ∧ c ≤ 'f') ∨ ('A' ≤ c ∧ c ≤ 'F')

/-- The value of a hexadecimal digit. -/
def hexval (c : Char) : UInt16 :=
  (if '0' ≤ c ∧ c ≤ '9' then c.toNat - '0'.toNat
    else if 'a' ≤ c ∧ c ≤ 'f' then c.toNat - 'a'.toNat + 10
    else c.toNat - 'A'.toNat + 10).toUInt16

/-- `parsedigits(ushort *digits, int maxlen, const char *s)`: the array and the length. -/
def parsedigits (d : Digits) (maxlen : Nat) (s : List Char) : Nat × Digits :=
  let s := s.takeWhile isxdigit
  let slen := s.length
  let len := (slen + 3) / 4
  if len > maxlen then (0, d)
  else (len, loopi slen (fun i d =>
    d.write (i / 4) (d (i / 4) ||| (hexval (s.getD (slen - i - 1) '0') <<< (4 * (i % 4)).toUInt16)))
      (d.memset0 0 len))

/-- `parse(const char *s)`. -/
def parse (d : Digits) (maxlen : Nat) (s : List Char) : BigInt :=
  let (len, d) := parsedigits d maxlen s
  shrink ⟨len, d⟩

/-- `copyshrinkdigits(y, n)`. -/
def copyshrinkdigits (d : Digits) (y : BigInt) (n : Nat) : BigInt :=
  shrink ⟨min y.len n, d.memcpy 0 y.digits 0 (min y.len n)⟩

/-- `shrinkdigits(n)`. -/
def shrinkdigits (d : Digits) (n : Nat) : BigInt := shrink ⟨n, d⟩

/-- `copydigits(to, y, from, n)`, for a position `src` below `y.len`. -/
def copydigits (d : Digits) (dst : Nat) (y : BigInt) (src n : Nat) : Digits :=
  let avail := min (y.len - src) n
  let d := d.memcpy dst y.digits src avail
  if avail < n then d.memset0 (dst + avail) (n - avail) else d

/-- `dupdigits(to, from, n)`. -/
def dupdigits (d : Digits) (dst src n : Nat) : Digits := d.memcpy dst d src n

/-- `copybits(to, y, from, n)`. -/
def copybits (d : Digits) (dst : Nat) (y : BigInt) (src n : Nat) : Digits :=
  copydigits d (dst / 16) y (src / 16) (n / 16)

/-- `dupbits(to, from, n)`. -/
def dupbits (d : Digits) (dst src n : Nat) : Digits := dupdigits d (dst / 16) (src / 16) (n / 16)

/-- `zerobits(i, n)`. -/
def zerobits (d : Digits) (i n : Nat) : Digits := d.memset0 (i / 16) (n / 16)

/-- `shrinkbits(n)`. -/
def shrinkbits (d : Digits) (n : Nat) : BigInt := shrinkdigits d (n / 16)

/-- `morebits(n)`. -/
def morebits (x : BigInt) (n : Nat) : Bool := n / 16 < x.len

theorem copydigits_apply (d : Digits) (dst : Nat) (y : BigInt) (src n j : Nat) :
    copydigits d dst y src n j =
      if dst ≤ j ∧ j < dst + n then y.padded (src + (j - dst)) else d j := by
  simp only [copydigits, Digits.memset0, Digits.memcpy, padded, ite_apply]
  split_ifs <;> first | rfl | omega

theorem val_copyshrinkdigits (d : Digits) (y : BigInt) (n : Nat) :
    (copyshrinkdigits d y n).val = y.padded.sum n := by
  have hn : y.padded.sum n = y.padded.sum (min y.len n) :=
    Digits.sum_of_zeros (by omega) fun i hi hin => if_neg (by omega)
  rw [copyshrinkdigits, val_shrink, hn]
  refine Digits.sum_congr fun i hi => ?_
  simp only at hi
  rw [padded, if_pos (by omega)]
  show Digits.memcpy d 0 y.digits 0 (min y.len n) i = y.digits i
  rw [Digits.memcpy, if_pos (by omega), Nat.zero_add, Nat.sub_zero]

end BigInt

namespace GField

open BigInt

/-- `GF_DIGITS`. -/
def GF_DIGITS : Nat := 12

/-- `gfield::P`. -/
def P : BigInt :=
  parse (fun _ => 0) (GF_DIGITS + 1) "fffffffffffffffffffffffffffffffeffffffffffffffff".toList

/-- `gfield &add(const bigint &x, const bigint &y)`, the array of the result being `d`. -/
def add (d : Digits) (x y : BigInt) : BigInt :=
  let r := BigInt.add d x y
  if !r.lt P then BigInt.sub r.digits r P else r

section Reduce

/-! `junk` is what an array holds that has not been written yet. -/

variable (junk : Digits)

/-- `void reduce(const bigint &result)`, `d` being the array of `*this`. -/
def reduce (d : Digits) (result : BigInt) : BigInt :=
  let r := copyshrinkdigits d result GF_DIGITS
  if result.morebits 192 then
    let s := copybits junk 0 result 192 64
    let s := dupbits s 64 0 64
    let s := shrinkbits s 128
    let r := add r.digits r s
    if result.morebits 256 then
      let s := zerobits s.digits 0 64
      let s := copybits s 64 result 256 64
      let s := dupbits s 128 64 64
      let s := shrinkdigits s GF_DIGITS
      let r := add r.digits r s
      if result.morebits 320 then
        let s := copybits s.digits 0 result 320 64
        let s := dupbits s 64 0 64
        let s := dupbits s 128 0 64
        let s := shrinkdigits s GF_DIGITS
        add r.digits r s
      else r
    else r
  else if !r.lt P then BigInt.sub r.digits r P
  else r

/-- `gfield &mul(const bigint &x, const bigint &y)`, `d` being the array of `*this`. -/
def mul (d : Digits) (x y : BigInt) : BigInt := reduce junk d (BigInt.mul junk x y)

/-- `gfield &square(const bigint &x)`. -/
def square (d : Digits) (x : BigInt) : BigInt := mul junk d x x

end Reduce

/-! ## What the operations compute -/

theorem val_P : P.val = p192 := by
  decide +kernel

theorem normal_P : P.Normal := normal_shrink _

/-- `if(*this >= P) gfint::sub(*this, P);`. -/
theorem condSub_spec {r : BigInt} (hr : r.Normal) :
    (if !r.lt P then BigInt.sub r.digits r P else r).val = addMod r.val 0 ∧
      (if !r.lt P then BigInt.sub r.digits r P else r).Normal := by
  have hlt := lt_iff hr normal_P
  rw [val_P] at hlt
  rw [addMod, Nat.add_zero]
  by_cases h : r.val < p192
  · rw [hlt.mpr h, if_pos h]
    exact ⟨rfl, hr⟩
  · have hle : P.val ≤ r.val := by
      rw [val_P]
      omega
    have hfalse : r.lt P = false := by
      rwa [← Bool.not_eq_true, hlt]
    rw [hfalse, if_neg h, ← val_P]
    exact ⟨val_sub (normal_P.len_le hle) hle _, normal_sub _ _ _⟩

theorem add_spec (d : Digits) {x y : BigInt} (hx : x.Normal) (hy : y.Normal) :
    (add d x y).val = addMod x.val y.val ∧ (add d x y).Normal := by
  have h := condSub_spec (normal_add d hx hy)
  rwa [val_add, addMod, Nat.add_zero] at h

section Words

/-! The four digits from `k` on as a word of 64 bits. -/

/-- The word of `x` that starts at digit `k`. -/
def word (x : BigInt) (k : Nat) : Nat := Digits.sum (fun i => x.padded (k + i)) 4

theorem word_lt (x : BigInt) (k : Nat) : word x k < 2 ^ 64 := Digits.sum_lt _ 4

theorem pow_digits (k : Nat) : 65536 ^ k = 2 ^ (16 * k) := by
  rw [pow_mul]
  norm_num

/-- The four parts of a product of at most 24 digits. -/
theorem val_eq_words {x : BigInt} (h : x.len ≤ 24) :
    x.val = x.padded.sum 12 + 2 ^ 192 * word x 12 + 2 ^ 256 * word x 16 + 2 ^ 320 * word x 20 := by
  rw [← sum_padded h, show 24 = 12 + 4 + 4 + 4 from rfl, Digits.sum_add, Digits.sum_add,
    Digits.sum_add, pow_digits, pow_digits, pow_digits, word, word, word]

theorem sum_eight (d : Digits) :
    d.sum 8 = d.sum 4 + 2 ^ 64 * Digits.sum (fun i => d (4 + i)) 4 := by
  rw [show 8 = 4 + 4 from rfl, Digits.sum_add, pow_digits]

theorem sum_twelve (d : Digits) :
    d.sum 12 = d.sum 8 + 2 ^ 128 * Digits.sum (fun i => d (8 + i)) 4 := by
  rw [show 12 = 8 + 4 from rfl, Digits.sum_add, pow_digits]

variable (d : Digits) (x : BigInt)

/-- The digits of `S1`: word 3 twice. -/
theorem S1_apply {i : Nat} (hi : i < 8) :
    dupbits (copybits d 0 x 192 64) 64 0 64 i = x.padded (12 + i % 4) := by
  simp only [dupbits, dupdigits, copybits, Digits.memcpy, copydigits_apply]
  split_ifs <;> first | omega | (congr 1; omega)

/-- The digits of `S2`: word 4 in the middle and at the top. -/
theorem S2_apply {i : Nat} (hi : i < 12) :
    dupbits (copybits (zerobits d 0 64) 64 x 256 64) 128 64 64 i =
      if i < 4 then 0 else x.padded (16 + i % 4) := by
  simp only [dupbits, dupdigits, copybits, zerobits, Digits.memcpy, Digits.memset0,
    copydigits_apply]
  split_ifs <;> first | omega | rfl | (congr 1; omega)

/-- The digits of `S3`: word 5 three times. -/
theorem S3_apply {i : Nat} (hi : i < 12) :
    dupbits (dupbits (copybits d 0 x 320 64) 64 0 64) 128 0 64 i = x.padded (20 + i % 4) := by
  simp only [dupbits, dupdigits, copybits, Digits.memcpy, copydigits_apply]
  split_ifs <;> first | omega | (congr 1; omega)

/-- Four digits that are a word. -/
theorem sum_word {e : Digits} {x : BigInt} {k m : Nat}
    (h : ∀ i < 4, e (k + i) = x.padded (m + (k + i) % 4)) (hk : k % 4 = 0) :
    Digits.sum (fun i => e (k + i)) 4 = word x m := by
  refine Digits.sum_congr fun i hi => ?_
  rw [h i hi]
  congr 1
  omega

theorem sum_four (d : Digits) : d.sum 4 = Digits.sum (fun i => d (0 + i)) 4 := by
  simp only [Nat.zero_add]

theorem val_S1 : (dupbits (copybits d 0 x 192 64) 64 0 64).sum 8 = word x 12 * (1 + 2 ^ 64) := by
  rw [sum_eight, sum_four, sum_word (fun i hi => S1_apply d x (by omega)) rfl,
    sum_word (fun i hi => S1_apply d x (by omega)) rfl]
  ring

theorem val_S2 :
    (dupbits (copybits (zerobits d 0 64) 64 x 256 64) 128 64 64).sum 12 =
      word x 16 * (2 ^ 64 + 2 ^ 128) := by
  have hS2 (k : Nat) (hk : 4 ≤ k) (hk8 : k ≤ 8) (i : Nat) (hi : i < 4) :
      dupbits (copybits (zerobits d 0 64) 64 x 256 64) 128 64 64 (k + i) =
        x.padded (16 + (k + i) % 4) := by
    rw [S2_apply d x (by omega), if_neg (by omega)]
  have hzero : (dupbits (copybits (zerobits d 0 64) 64 x 256 64) 128 64 64).sum 4 = 0 :=
    Digits.sum_of_zeros (Nat.zero_le 4) fun i _ hi => by
      rw [S2_apply d x (by omega), if_pos hi]
  rw [sum_twelve, sum_eight, hzero, sum_word (hS2 4 (by omega) (by omega)) rfl,
    sum_word (hS2 8 (by omega) (by omega)) rfl]
  ring

theorem val_S3 :
    (dupbits (dupbits (copybits d 0 x 320 64) 64 0 64) 128 0 64).sum 12 =
      word x 20 * (1 + 2 ^ 64 + 2 ^ 128) := by
  rw [sum_twelve, sum_eight, sum_four, sum_word (fun i hi => S3_apply d x (by omega)) rfl,
    sum_word (fun i hi => S3_apply d x (by omega)) rfl,
    sum_word (fun i hi => S3_apply d x (by omega)) rfl]
  ring

end Words

section

variable (junk d : Digits)

theorem morebits_eq {x : BigInt} (hx : x.Normal) {k n : Nat} (hn : n = 16 * k) :
    x.morebits n = decide (2 ^ n ≤ x.val) := by
  rw [hn, morebits, Nat.mul_div_cancel_left k (by norm_num), ← pow_digits]
  exact decide_eq_decide.mpr hx.lt_len_iff

/-- **`reduce`** folds the number it is given. -/
theorem reduce_spec {x : BigInt} (hx : x.Normal) (hlt : x.val < 2 ^ 384) :
    (reduce junk d x).val = fold192 x.val ∧ (reduce junk d x).Normal := by
  have hlen : x.len ≤ 24 := by
    by_contra hc
    have := hx.pow_le (n := 24) (by omega)
    rw [pow_digits] at this
    omega
  have hwords := val_eq_words hlen
  have hlow : x.padded.sum 12 < 2 ^ 192 := Digits.sum_lt _ 12
  have h12 := word_lt x 12
  have h16 := word_lt x 16
  have h20 := word_lt x 20
  have w0 : x.padded.sum 12 = x.val % 2 ^ 192 := by omega
  have w12 : word x 12 = x.val / 2 ^ 192 % 2 ^ 64 := by omega
  have w16 : word x 16 = x.val / 2 ^ 256 % 2 ^ 64 := by omega
  have w20 : word x 20 = x.val / 2 ^ 320 % 2 ^ 64 := by omega
  have m192 := morebits_eq hx (show 192 = 16 * 12 from rfl)
  have m256 := morebits_eq hx (show 256 = 16 * 16 from rfl)
  have m320 := morebits_eq hx (show 320 = 16 * 20 from rfl)
  -- `T`
  have v0 : (copyshrinkdigits d x GF_DIGITS).val = x.val % 2 ^ 192 := by
    rw [val_copyshrinkdigits, ← w0]
    rfl
  have n0 : (copyshrinkdigits d x GF_DIGITS).Normal := normal_shrink _
  rw [reduce, fold192]
  dsimp only
  generalize copyshrinkdigits d x GF_DIGITS = r at v0 n0 ⊢
  by_cases h192 : x.val < 2 ^ 192
  · rw [if_pos h192, m192, decide_eq_false (not_le.mpr h192), if_neg Bool.false_ne_true, ← v0]
    exact condSub_spec n0
  rw [if_neg h192, m192, decide_eq_true (not_lt.mp h192), if_pos rfl]
  -- `S1`
  have s1 : (shrinkbits (dupbits (copybits junk 0 x 192 64) 64 0 64) 128).val =
      word x 12 * (1 + 2 ^ 64) := (val_shrink _).trans (val_S1 junk x)
  have t1 : (shrinkbits (dupbits (copybits junk 0 x 192 64) 64 0 64) 128).Normal :=
    normal_shrink _
  generalize shrinkbits (dupbits (copybits junk 0 x 192 64) 64 0 64) 128 = s at s1 t1 ⊢
  obtain ⟨v1, n1⟩ := add_spec r.digits n0 t1
  rw [v0, s1, w12] at v1
  generalize add r.digits r s = r1 at v1 n1 ⊢
  by_cases h256 : x.val < 2 ^ 256
  · rw [if_pos h256, m256, decide_eq_false (not_le.mpr h256), if_neg Bool.false_ne_true]
    exact ⟨v1, n1⟩
  rw [if_neg h256, m256, decide_eq_true (not_lt.mp h256), if_pos rfl]
  -- `S2`
  have s2 : (shrinkdigits (dupbits (copybits (zerobits s.digits 0 64) 64 x 256 64) 128 64 64)
      GF_DIGITS).val = word x 16 * (2 ^ 64 + 2 ^ 128) := (val_shrink _).trans (val_S2 s.digits x)
  have t2 : (shrinkdigits (dupbits (copybits (zerobits s.digits 0 64) 64 x 256 64) 128 64 64)
      GF_DIGITS).Normal := normal_shrink _
  generalize shrinkdigits (dupbits (copybits (zerobits s.digits 0 64) 64 x 256 64) 128 64 64)
    GF_DIGITS = s' at s2 t2 ⊢
  obtain ⟨v2, n2⟩ := add_spec r1.digits n1 t2
  rw [v1, s2, w16] at v2
  generalize add r1.digits r1 s' = r2 at v2 n2 ⊢
  by_cases h320 : x.val < 2 ^ 320
  · rw [if_pos h320, m320, decide_eq_false (not_le.mpr h320), if_neg Bool.false_ne_true]
    exact ⟨v2, n2⟩
  rw [if_neg h320, m320, decide_eq_true (not_lt.mp h320), if_pos rfl]
  -- `S3`
  have s3 : (shrinkdigits (dupbits (dupbits (copybits s'.digits 0 x 320 64) 64 0 64) 128 0 64)
      GF_DIGITS).val = word x 20 * (1 + 2 ^ 64 + 2 ^ 128) :=
    (val_shrink _).trans (val_S3 s'.digits x)
  have t3 : (shrinkdigits (dupbits (dupbits (copybits s'.digits 0 x 320 64) 64 0 64) 128 0 64)
      GF_DIGITS).Normal := normal_shrink _
  generalize shrinkdigits (dupbits (dupbits (copybits s'.digits 0 x 320 64) 64 0 64) 128 0 64)
    GF_DIGITS = s'' at s3 t3 ⊢
  obtain ⟨v3, n3⟩ := add_spec r2.digits n2 t3
  rw [v2, s3, w20] at v3
  exact ⟨v3, n3⟩

end

/-! ## The product -/

section Product

variable (junk d : Digits) {x y : BigInt} (hx : x.val < p192) (hy : y.val < p192)
include hx hy

theorem mul_le : x.val * y.val ≤ (p192 - 1) * (p192 - 1) :=
  Nat.mul_le_mul (by omega) (by omega)

theorem mul_spec :
    (mul junk d x y).val = fold192 (x.val * y.val) ∧ (mul junk d x y).Normal := by
  have hlt : (BigInt.mul junk x y).val < 2 ^ 384 := by
    rw [val_mul]
    calc x.val * y.val ≤ (p192 - 1) * (p192 - 1) := mul_le hx hy
      _ < 2 ^ 192 * 2 ^ 192 := by decide
      _ = 2 ^ 384 := by rw [← pow_add]
  have h := reduce_spec junk d (normal_mul junk x y) hlt
  rwa [val_mul] at h

/-- A product of two numbers below `P` is divisible by `P` only when one of them is zero. -/
theorem mul_eq_zero_of_mod : x.val * y.val % p192 = 0 → x.val * y.val = 0 := by
  intro h
  rcases (prime_p192.dvd_mul).mp (Nat.dvd_of_mod_eq_zero h) with hdvd | hdvd
  · rw [Nat.eq_zero_of_dvd_of_lt hdvd hx, Nat.zero_mul]
  · rw [Nat.eq_zero_of_dvd_of_lt hdvd hy, Nat.mul_zero]

end Product

/-- The result of an operation is the canonical representative of `n`: congruent to `n`
and below `P`. -/
def Canonical (r : BigInt) (n : Nat) : Prop := r.val % p192 = n % p192 ∧ r.val < P.val

/-- **When products are canonical.** `mul` and `square` return the canonical
representative unless the product of the factors has all its top 64 bits set and its
residue is below `2^64`; then they return the residue plus `P`. -/
theorem mul_canonical_iff (junk d : Digits) {x y : BigInt} (hx : x.val < P.val)
    (hy : y.val < P.val) :
    (Canonical (mul junk d x y) (x.val * y.val) ↔
        ¬ (2 ^ 384 - 2 ^ 320 ≤ x.val * y.val ∧ x.val * y.val % P.val < 2 ^ 64)) ∧
      (Canonical (square junk d x) (x.val * x.val) ↔
        ¬ (2 ^ 384 - 2 ^ 320 ≤ x.val * x.val ∧ x.val * x.val % P.val < 2 ^ 64)) := by
  rw [val_P] at hx hy
  have hmul {x y : BigInt} (hx : x.val < p192) (hy : y.val < p192) :
      Canonical (mul junk d x y) (x.val * y.val) ↔
        ¬ (2 ^ 384 - 2 ^ 320 ≤ x.val * y.val ∧ x.val * y.val % P.val < 2 ^ 64) := by
    have hle := mul_le hx hy
    have hbound : (p192 - 1) * (p192 - 1) < 2 ^ 192 * 2 ^ 192 := by decide
    rw [← pow_add] at hbound
    rw [Canonical, (mul_spec junk d hx hy).1, val_P,
      ← fold192_lt_iff hle (mul_eq_zero_of_mod hx hy)]
    exact and_iff_right (fold192_modEq (by omega))
  exact ⟨hmul hx hy, hmul hx hx⟩

/-- The number `2 ^ 191 + n`. -/
def high (n : UInt16) : BigInt := ⟨12, fun i => if i = 11 then 0x8000 else if i = 0 then n else 0⟩

/-- A product of 383 bits is reduced. -/
theorem mul_canonical_high :
    Canonical (mul (fun _ => 0) (fun _ => 0) (high 3) (high 5)) ((high 3).val * (high 5).val) :=
  (mul_canonical_iff (fun _ => 0) (fun _ => 0) (x := high 3) (y := high 5)
    (by decide +kernel) (by decide +kernel)).1.mpr (by decide +kernel)

/-- The element `P - 1`. -/
def negOne : BigInt := ⟨12, P.digits.write 0 0xfffe⟩

theorem val_negOne : negOne.val = p192 - 1 := by
  decide +kernel

/-- The square of `P - 1` comes out as `P + 1`: it is not canonical, and it does not compare
equal to `1`, to which it is congruent. -/
theorem square_negOne_not_canonical :
    negOne.val < P.val ∧
      ¬ Canonical (mul (fun _ => 0) (fun _ => 0) negOne negOne) (negOne.val * negOne.val) ∧
      (mul (fun _ => 0) (fun _ => 0) negOne negOne).val % P.val = 1 ∧
      (mul (fun _ => 0) (fun _ => 0) negOne negOne).beq ⟨1, fun _ => 1⟩ = false := by
  have hlt : negOne.val < p192 := by
    rw [val_negOne]
    decide
  have hval : (mul (fun _ => 0) (fun _ => 0) negOne negOne).val = p192 + 1 := by
    rw [(mul_spec _ _ hlt hlt).1, val_negOne]
    decide +kernel
  have hnormal := (mul_spec (fun _ => 0) (fun _ => 0) hlt hlt).2
  refine ⟨by rwa [val_P], fun hc => ?_, by rw [hval, val_P]; decide, ?_⟩
  · have hc2 := hc.2
    rw [hval, val_P] at hc2
    omega
  · have hone : BigInt.Normal ⟨1, fun _ => 1⟩ := fun _ _ => (by decide : (1 : UInt16) ≠ 0)
    rw [← Bool.not_eq_true, beq_iff hnormal hone, hval]
    decide +kernel

end GField

end Zuckerserv

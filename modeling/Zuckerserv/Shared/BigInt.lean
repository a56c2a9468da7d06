import Zuckerserv.Lib.DigitSum
import Zuckerserv.Lib.Loop

/-!
# Big integers

`bigint` of `shared/crypto.cpp`: digits of sixteen bits in an array, lowest first,
and the number of them in use. What the array holds behind the digits in use is left
as it is, and an operation may store its result over one of its operands.

* `BigInt` — the digits and their number; `val` is the number they stand for.
* `add`, `sub`, `mul`, `shrink`, `lt`, `beq` — the operations, with the carries of the
  source in 32-bit words.
* `val_add`, `val_sub`, `val_mul`, `lt_iff`, `beq_iff` — what they compute.
* `Normal` — the highest digit in use is not zero; `shrink` establishes it, and
  comparing needs it.
-/

namespace Zuckerserv

open Loop DigitSum

/-- A piece of memory that holds digits. -/
abbrev Digits := Nat → UInt16

/-- `bigint`: `len` digits of the array are in use. -/
structure BigInt where
  /-- The number of digits in use. -/
  len : Nat
  /-- The array; the digits from `len` on mean nothing. -/
  digits : Digits

namespace Digits

/-- `digits[i] = v`. -/
def write (d : Digits) (i : Nat) (v : UInt16) : Digits := fun j => if j = i then v else d j

/-- `memcpy(&d[dst], &e[src], n*sizeof(digit))`. -/
def memcpy (d : Digits) (dst : Nat) (e : Digits) (src n : Nat) : Digits :=
  fun j => if dst ≤ j ∧ j < dst + n then e (src + (j - dst)) else d j

/-- `memset(&d[dst], 0, n*sizeof(digit))`. -/
def memset0 (d : Digits) (dst n : Nat) : Digits :=
  fun j => if dst ≤ j ∧ j < dst + n then 0 else d j

/-- The value of the first `n` digits. -/
def sum (d : Digits) (n : Nat) : Nat := digitSum 65536 (fun i => (d i).toNat) n

theorem sum_succ (d : Digits) (n : Nat) : d.sum (n + 1) = d.sum n + (d n).toNat * 65536 ^ n :=
  digitSum_succ

theorem sum_lt (d : Digits) (n : Nat) : d.sum n < 65536 ^ n :=
  digitSum_lt fun i _ => (d i).toNat_lt

theorem sum_congr {d e : Digits} {n : Nat} (h : ∀ i < n, d i = e i) : d.sum n = e.sum n :=
  digitSum_congr fun i hi => by rw [h i hi]

theorem sum_write_of_le (d : Digits) {i n : Nat} (v : UInt16) (h : n ≤ i) :
    (d.write i v).sum n = d.sum n :=
  sum_congr fun j hj => if_neg (by omega)

theorem sum_write_succ (d : Digits) (n : Nat) (v : UInt16) :
    (d.write n v).sum (n + 1) = d.sum n + v.toNat * 65536 ^ n := by
  rw [sum_succ, sum_write_of_le d v le_rfl, write, if_pos rfl]

/-- Cutting the digits in two. -/
theorem sum_add (d : Digits) (m n : Nat) :
    d.sum (m + n) = d.sum m + 65536 ^ m * Digits.sum (fun i => d (m + i)) n :=
  digitSum_add

theorem sum_of_zeros {d : Digits} {m n : Nat} (hmn : m ≤ n) (h : ∀ i, m ≤ i → i < n → d i = 0) :
    d.sum n = d.sum m :=
  digitSum_of_zeros hmn fun i h1 h2 => by rw [h i h1 h2]; rfl

end Digits

namespace BigInt

/-- The number the digits stand for. -/
def val (x : BigInt) : Nat := x.digits.sum x.len

/-- The digits in use, followed by zeros. -/
def padded (x : BigInt) : Digits := fun i => if i < x.len then x.digits i else 0

theorem sum_padded {x : BigInt} {n : Nat} (h : x.len ≤ n) : x.padded.sum n = x.val := by
  have hzero (i : Nat) (hi : x.len ≤ i) (_ : i < n) : x.padded i = 0 := if_neg (by omega)
  rw [Digits.sum_of_zeros h hzero]
  exact Digits.sum_congr fun i hi => if_pos hi

theorem val_lt (x : BigInt) : x.val < 65536 ^ x.len := Digits.sum_lt _ _

/-! ## Shrinking and comparing -/

/-- The loop of `shrink`. -/
def shrinkLen (d : Digits) : Nat → Nat
  | 0 => 0
  | n + 1 => if d n = 0 then shrinkLen d n else n + 1

/-- `void shrink()`. -/
def shrink (x : BigInt) : BigInt := { x with len := shrinkLen x.digits x.len }

/-- The highest digit in use is not zero. -/
def Normal (x : BigInt) : Prop := ∀ n, x.len = n + 1 → x.digits n ≠ 0

theorem sum_shrinkLen (d : Digits) (n : Nat) : d.sum (shrinkLen d n) = d.sum n := by
  induction n with
  | zero => rfl
  | succ n ih =>
    rw [shrinkLen]
    split_ifs with h
    · rw [ih, Digits.sum_succ, h]
      simp
    · rfl

@[simp] theorem val_shrink (x : BigInt) : x.shrink.val = x.val := sum_shrinkLen _ _

theorem normal_shrink (x : BigInt) : x.shrink.Normal := by
  obtain ⟨len, d⟩ := x
  intro n
  show shrinkLen d len = n + 1 → d n ≠ 0
  induction len with
  | zero => exact fun h => absurd h.symm (Nat.succ_ne_zero n)
  | succ m ih =>
    rw [shrinkLen]
    split_ifs with h
    · exact ih
    · intro hn
      rwa [← Nat.succ.inj hn]

theorem Normal.pow_le {x : BigInt} (hx : x.Normal) {n : Nat} (hn : n < x.len) :
    65536 ^ n ≤ x.val := by
  obtain ⟨m, hm⟩ := Nat.exists_eq_succ_of_ne_zero (show x.len ≠ 0 by omega)
  have hd : (x.digits m).toNat ≠ 0 := fun h => hx m hm (UInt16.toNat_inj.mp h)
  calc 65536 ^ n ≤ 65536 ^ m := Nat.pow_le_pow_right (by norm_num) (by omega)
    _ ≤ x.digits.sum (m + 1) := pow_le_digitSum hd
    _ = x.val := by rw [val, hm]

/-- The number of digits of a normal number is told by its value. -/
theorem Normal.lt_len_iff {x : BigInt} (hx : x.Normal) {n : Nat} :
    n < x.len ↔ 65536 ^ n ≤ x.val := by
  refine ⟨hx.pow_le, fun h => ?_⟩
  by_contra hc
  have hle : 65536 ^ x.len ≤ 65536 ^ n := Nat.pow_le_pow_right (by norm_num) (by omega)
  have hlt := x.val_lt
  omega

theorem Normal.len_le {x y : BigInt} (hy : y.Normal) (h : y.val ≤ x.val) : y.len ≤ x.len := by
  by_contra hc
  have hle := hy.pow_le (n := x.len) (by omega)
  have hlt := x.val_lt
  omega

theorem normal_of_pow_le {x : BigInt} (h : ∀ n, x.len = n + 1 → 65536 ^ n ≤ x.val) :
    x.Normal := by
  intro n hn hzero
  have hle := h n hn
  have hlt := x.digits.sum_lt n
  rw [val, hn, Digits.sum_succ, hzero] at hle
  simp at hle
  omega

/-- The loop of `operator<`, from the highest digit down. -/
def ltDigits (d e : Digits) : Nat → Bool
  | 0 => false
  | n + 1 => if d n < e n then true else if d n > e n then false else ltDigits d e n

/-- `operator<`. -/
def lt (x y : BigInt) : Bool :=
  if x.len < y.len then true
  else if x.len > y.len then false
  else ltDigits x.digits y.digits x.len

/-- `operator==`. -/
def beq (x y : BigInt) : Bool :=
  if x.len ≠ y.len then false else (List.range x.len).all fun i => x.digits i == y.digits i

theorem ltDigits_iff (d e : Digits) (n : Nat) : ltDigits d e n = true ↔ d.sum n < e.sum n := by
  have hdigit (d : Digits) (i : Nat) : (d i).toNat < 65536 := (d i).toNat_lt
  induction n with
  | zero => simp [ltDigits, Digits.sum]
  | succ n ih =>
    rw [ltDigits]
    split_ifs with h1 h2
    · have hlt : d.sum (n + 1) < e.sum (n + 1) :=
        digitSum_lt_of_top (fun i _ => hdigit d i) (UInt16.lt_iff_toNat_lt.mp h1)
          (Nat.lt_succ_self n) fun i _ _ => by omega
      exact iff_of_true rfl hlt
    · have hlt : e.sum (n + 1) < d.sum (n + 1) :=
        digitSum_lt_of_top (fun i _ => hdigit e i) (UInt16.lt_iff_toNat_lt.mp h2)
          (Nat.lt_succ_self n) fun i _ _ => by omega
      exact iff_of_false not_false (by omega)
    · have heq : (d n).toNat = (e n).toNat := by
        rw [UInt16.lt_iff_toNat_lt] at h1
        rw [gt_iff_lt, UInt16.lt_iff_toNat_lt] at h2
        omega
      rw [Digits.sum_succ, Digits.sum_succ, heq, Nat.add_lt_add_iff_right]
      exact ih

/-- On normal numbers `operator<` is the order of the values. -/
theorem lt_iff {x y : BigInt} (hx : x.Normal) (hy : y.Normal) :
    x.lt y = true ↔ x.val < y.val := by
  rw [lt]
  split_ifs with h1 h2
  · have hle := hy.pow_le h1
    have hlt := x.val_lt
    exact iff_of_true rfl (by omega)
  · have hle := hx.pow_le h2
    have hlt := y.val_lt
    exact iff_of_false not_false (by omega)
  · have hlen : x.len = y.len := by omega
    rw [ltDigits_iff, val, val, hlen]

/-- On normal numbers `operator==` is equality of the values. -/
theorem beq_iff {x y : BigInt} (hx : x.Normal) (hy : y.Normal) :
    x.beq y = true ↔ x.val = y.val := by
  have hlt (d : Digits) (n : Nat) : ∀ i < n, (d i).toNat < 65536 := fun i _ => (d i).toNat_lt
  rw [beq]
  split_ifs with hlen
  · refine iff_of_false not_false fun hval => hlen ?_
    exact le_antisymm (hx.len_le hval.le) (hy.len_le hval.ge)
  · rw [ne_eq, not_not] at hlen
    rw [List.all_eq_true, val, val, ← hlen]
    constructor
    · intro hall
      refine Digits.sum_congr fun i hi => ?_
      exact eq_of_beq (hall i (List.mem_range.mpr hi))
    · intro hsum i hi
      have hdigit := digitSum_inj (hlt x.digits x.len) (hlt y.digits x.len) hsum i
        (List.mem_range.mp hi)
      exact beq_iff_eq.mpr (UInt16.toNat_inj.mp hdigit)

/-! ## Addition -/

/-- The variables of the loops of `add` and `sub`: the counter, `carry` or `borrow`,
and the array that is being written. -/
structure Ripple where
  /-- `i`. -/
  i : Nat
  /-- `carry` in `add`, `borrow` in `sub`. -/
  carry : UInt32
  /-- The digits of the result. -/
  digits : Digits

/-- The value a ripple has written so far, with what it still carries. -/
def Ripple.sum (s : Ripple) : Nat := s.digits.sum s.i + s.carry.toNat * 65536 ^ s.i

/-- `carry += (i < x.len ? x.digits[i] : 0) + (i < y.len ? y.digits[i] : 0)`. -/
def addCarry (x y : BigInt) (s : Ripple) : UInt32 :=
  s.carry + ((if s.i < x.len then (x.digits s.i).toUInt32 else 0) +
    (if s.i < y.len then (y.digits s.i).toUInt32 else 0))

/-- One round of `add`. -/
def addStep (x y : BigInt) (s : Ripple) : Ripple :=
  let carry := addCarry x y s
  ⟨s.i + 1, carry >>> 16, s.digits.write s.i carry.toUInt16⟩

/-- The loop of `add`, over the array `d`: it runs at most to the carry behind the longer
operand. -/
def addLoop (d : Digits) (x y : BigInt) : Ripple :=
  whileDo (fun s => s.i < y.len ∨ s.carry ≠ 0) (addStep x y) (max x.len y.len + 2) ⟨0, 0, d⟩

/-- `bigint &add(const bigint &x, const bigint &y)`, the array of the result being `d`.
When the result is stored over `x`, `d` is the array of `x`; every digit is read before
it is overwritten. -/
def add (d : Digits) (x y : BigInt) : BigInt :=
  let s := addLoop d x y
  ⟨max s.i (max x.len y.len),
    if s.i < x.len then s.digits.memcpy s.i x.digits s.i (x.len - s.i) else s.digits⟩

theorem toNat_padded (x : BigInt) (i : Nat) :
    (if i < x.len then (x.digits i).toUInt32 else 0).toNat = (x.padded i).toNat := by
  rw [padded]
  split_ifs
  · exact UInt16.toNat_toUInt32 _
  · rfl

/-- What holds at the head of the loop of `add`. -/
structure AddInv (x y : BigInt) (s : Ripple) : Prop where
  /-- The digits so far and the carry are the sum of the digits so far. -/
  sum : s.sum = x.padded.sum s.i + y.padded.sum s.i
  carry_le : s.carry.toNat ≤ 1
  i_le : s.i ≤ max x.len y.len + 1
  /-- The round behind the last digit takes the carry in. -/
  last : s.i = max x.len y.len + 1 → s.carry = 0 ∧ s.digits (s.i - 1) ≠ 0

/-- Writing the low half of a word and carrying the high half writes the word. -/
theorem Ripple.sum_write (d : Digits) (i : Nat) (c : UInt32) :
    (Ripple.mk (i + 1) (c >>> 16) (d.write i c.toUInt16)).sum = d.sum i + c.toNat * 65536 ^ i := by
  have hlow : c.toUInt16.toNat = c.toNat % 65536 := UInt32.toNat_toUInt16 c
  have hhigh : (c >>> 16).toNat = c.toNat / 65536 := by
    rw [UInt32.toNat_shiftRight, Nat.shiftRight_eq_div_pow]
    rfl
  rw [Ripple.sum, Digits.sum_write_succ, hlow, hhigh, pow_succ]
  have hc := Nat.mod_add_div c.toNat 65536
  calc d.sum i + c.toNat % 65536 * 65536 ^ i + c.toNat / 65536 * (65536 ^ i * 65536)
      = d.sum i + (c.toNat % 65536 + 65536 * (c.toNat / 65536)) * 65536 ^ i := by ring
    _ = d.sum i + c.toNat * 65536 ^ i := by rw [hc]

theorem toNat_addCarry {x y : BigInt} {s : Ripple} (h : s.carry.toNat ≤ 1) :
    (addCarry x y s).toNat =
      s.carry.toNat + ((x.padded s.i).toNat + (y.padded s.i).toNat) := by
  have hx := (x.padded s.i).toNat_lt
  have hy := (y.padded s.i).toNat_lt
  rw [addCarry, UInt32.toNat_add, UInt32.toNat_add, toNat_padded, toNat_padded]
  omega

theorem sum_addStep {x y : BigInt} {s : Ripple} (h : s.carry.toNat ≤ 1) :
    (addStep x y s).sum =
      s.sum + ((x.padded s.i).toNat + (y.padded s.i).toNat) * 65536 ^ s.i := by
  rw [addStep, Ripple.sum_write, toNat_addCarry h, Ripple.sum]
  ring

theorem addInv_step {x y : BigInt} {s : Ripple} (h : AddInv x y s)
    (hc : s.i < y.len ∨ s.carry ≠ 0) : AddInv x y (addStep x y s) := by
  have hx := (x.padded s.i).toNat_lt
  have hy := (y.padded s.i).toNat_lt
  have hcarry := h.carry_le
  have hi : s.i ≤ max x.len y.len := by
    by_contra hgt
    have hi := h.i_le
    have hzero := (h.last (by omega)).1
    rcases hc with hc | hc
    · omega
    · exact hc hzero
  have hword := toNat_addCarry (x := x) (y := y) hcarry
  refine ⟨?_, ?_, Nat.succ_le_succ hi, fun hlast => ?_⟩
  · rw [sum_addStep hcarry, h.sum]
    show _ = x.padded.sum (s.i + 1) + y.padded.sum (s.i + 1)
    rw [Digits.sum_succ, Digits.sum_succ]
    ring
  · show (addCarry x y s >>> (16 : UInt32)).toNat ≤ 1
    rw [UInt32.toNat_shiftRight, hword, Nat.shiftRight_eq_div_pow]
    show _ / 65536 ≤ 1
    omega
  · -- behind the last digit only the carry is left
    have himax : s.i = max x.len y.len := Nat.succ.inj hlast
    have hx0 : x.padded s.i = 0 := if_neg (by omega)
    have hy0 : y.padded s.i = 0 := if_neg (by omega)
    have hc1 : s.carry.toNat = 1 := by
      rcases hc with hc | hc
      · omega
      · have : s.carry.toNat ≠ 0 := fun h0 => hc (UInt32.toNat_inj.mp h0)
        omega
    rw [hx0, hy0, hc1] at hword
    have hone : addCarry x y s = 1 := UInt32.toNat_inj.mp hword
    rw [addStep, hone]
    refine ⟨rfl, ?_⟩
    show Digits.write _ s.i _ s.i ≠ 0
    rw [Digits.write, if_pos rfl]
    decide

/-- The state in which the loop of `add` ends. -/
theorem addLoop_spec (d : Digits) (x y : BigInt) :
    AddInv x y (addLoop d x y) ∧ y.len ≤ (addLoop d x y).i ∧ (addLoop d x y).carry = 0 := by
  have h0 : AddInv x y ⟨0, 0, d⟩ := ⟨by simp [Ripple.sum, Digits.sum], Nat.zero_le _,
    Nat.zero_le _, fun h => absurd h (by simp)⟩
  have hinv : AddInv x y (addLoop d x y) := whileDo_inv (fun _ => addInv_step) h0 _
  have hexit : ¬ ((addLoop d x y).i < y.len ∨ (addLoop d x y).carry ≠ 0) := by
    refine not_whileDo (fun _ => addInv_step) (fun s => max x.len y.len + 1 - s.i) ?_ h0
      (Nat.lt_succ_self _)
    intro s hs hc
    have hnext := (addInv_step hs hc).i_le
    show _ + 1 - (s.i + 1) < _
    simp only [addStep] at hnext
    omega
  rw [not_or, not_not] at hexit
  exact ⟨hinv, by omega, hexit.2⟩

/-- The digits a ripple wrote, followed by the digits of `x` it did not reach. -/
theorem sum_memcpy {x : BigInt} {d : Digits} {i : Nat} (hi : i ≤ x.len) :
    (d.memcpy i x.digits i (x.len - i)).sum x.len + x.padded.sum i = d.sum i + x.val := by
  have hsplit := Digits.sum_add (d.memcpy i x.digits i (x.len - i)) i (x.len - i)
  have hx := Digits.sum_add x.digits i (x.len - i)
  rw [Nat.add_sub_cancel' hi] at hsplit hx
  have hlow : (d.memcpy i x.digits i (x.len - i)).sum i = d.sum i :=
    Digits.sum_congr fun j hj => if_neg (by omega)
  have hhigh : Digits.sum (fun j => d.memcpy i x.digits i (x.len - i) (i + j)) (x.len - i) =
      Digits.sum (fun j => x.digits (i + j)) (x.len - i) := by
    refine Digits.sum_congr fun j hj => ?_
    rw [Digits.memcpy, if_pos (by omega), Nat.add_sub_cancel_left]
  have hpad : x.padded.sum i = x.digits.sum i := Digits.sum_congr fun j hj => if_pos (by omega)
  rw [hsplit, hlow, hhigh, hpad, val, hx]
  ring

/-- **Addition** computes the sum. -/
theorem val_add (d : Digits) (x y : BigInt) : (add d x y).val = x.val + y.val := by
  obtain ⟨hinv, hy, hcarry⟩ := addLoop_spec d x y
  rw [add, val]
  generalize addLoop d x y = s at *
  have hsum := hinv.sum
  rw [Ripple.sum, hcarry, sum_padded hy] at hsum
  simp only [UInt32.toNat_zero, zero_mul, add_zero] at hsum
  by_cases hi : s.i < x.len
  · have hcpy := sum_memcpy (d := s.digits) hi.le
    have hmax : max s.i (max x.len y.len) = x.len := by omega
    simp only [if_pos hi, hmax]
    omega
  · have hmax : max s.i (max x.len y.len) = s.i := by omega
    simp only [if_neg hi, hmax]
    rw [hsum, sum_padded (by omega)]

/-- The sum of normal numbers is normal. -/
theorem normal_add (d : Digits) {x y : BigInt} (hx : x.Normal) (hy : y.Normal) :
    (add d x y).Normal := by
  obtain ⟨hinv, hyi, -⟩ := addLoop_spec d x y
  have hval := val_add d x y
  by_cases hi : (addLoop d x y).i = max x.len y.len + 1
  · intro n hn
    have hlen : (add d x y).len = (addLoop d x y).i := by
      show max _ _ = _
      omega
    have hdigits : (add d x y).digits = (addLoop d x y).digits := if_neg (by omega)
    rw [hdigits, show n = (addLoop d x y).i - 1 by omega]
    exact (hinv.last hi).2
  · refine normal_of_pow_le fun n hn => ?_
    have hlen : (add d x y).len = max x.len y.len := by
      have hle := hinv.i_le
      show max _ _ = _
      omega
    rw [hval]
    rcases le_total x.len y.len with hxy | hxy
    · have hle := hy.pow_le (n := n) (by omega)
      omega
    · have hle := hx.pow_le (n := n) (by omega)
      omega

/-! ## Subtraction -/

/-- `borrow = (1<<BI_DIGIT_BITS) + x.digits[i] - (i < y.len ? y.digits[i] : 0) - borrow`. -/
def subBorrow (x y : BigInt) (s : Ripple) : UInt32 :=
  ((1 : UInt32) <<< 16) + (x.digits s.i).toUInt32 -
    (if s.i < y.len then (y.digits s.i).toUInt32 else 0) - s.carry

/-- One round of `sub`. -/
def subStep (x y : BigInt) (s : Ripple) : Ripple :=
  let borrow := subBorrow x y s
  ⟨s.i + 1, (borrow >>> 16) ^^^ 1, s.digits.write s.i borrow.toUInt16⟩

/-- The loop of `sub`, over the array `d`. It is left by its condition, inside the digits
of `x`, when the `ASSERT(x >= y)` in front of it holds. -/
def subLoop (d : Digits) (x y : BigInt) : Ripple :=
  whileDo (fun s => s.i < y.len ∨ s.carry ≠ 0) (subStep x y) (x.len + 1) ⟨0, 0, d⟩

/-- `bigint &sub(const bigint &x, const bigint &y)`, the array of the result being `d`. -/
def sub (d : Digits) (x y : BigInt) : BigInt :=
  let s := subLoop d x y
  shrink ⟨x.len,
    if s.i < x.len then s.digits.memcpy s.i x.digits s.i (x.len - s.i) else s.digits⟩

/-- What holds at the head of the loop of `sub`. -/
structure SubInv (x y : BigInt) (s : Ripple) : Prop where
  /-- The digits so far, and the digits taken away, are those of `x` and the borrow. -/
  sum : s.digits.sum s.i + y.padded.sum s.i =
    x.digits.sum s.i + s.carry.toNat * 65536 ^ s.i
  carry_le : s.carry.toNat ≤ 1
  i_le : s.i ≤ x.len

section Sub

variable {x y : BigInt} (hlen : y.len ≤ x.len) (hle : y.val ≤ x.val)
include hlen hle

theorem subInv_step {s : Ripple} (h : SubInv x y s) (hc : s.i < y.len ∨ s.carry ≠ 0) :
    SubInv x y (subStep x y s) := by
  have hcarry := h.carry_le
  have hx := (x.digits s.i).toNat_lt
  have hy := (y.padded s.i).toNat_lt
  have hi : s.i < x.len := by
    rcases hc with hc | hc
    · omega
    -- a borrow that is left behind all digits of `x` would make `y` larger than `x`
    · by_contra hge
      have hxi : s.i = x.len := by have := h.i_le; omega
      have hsum := h.sum
      have hlt := s.digits.sum_lt s.i
      have hc1 : s.carry.toNat ≠ 0 := fun h0 => hc (UInt32.toNat_inj.mp h0)
      rw [sum_padded (by omega), show s.carry.toNat = 1 by omega, hxi] at hsum
      rw [hxi] at hlt
      have hxv : x.val = x.digits.sum x.len := rfl
      omega
  have hword : (subBorrow x y s).toNat + (y.padded s.i).toNat + s.carry.toNat =
      65536 + (x.digits s.i).toNat := by
    have h16 : ((1 : UInt32) <<< 16).toNat = 65536 := by decide
    rw [subBorrow, UInt32.toNat_sub, UInt32.toNat_sub, UInt32.toNat_add, toNat_padded,
      UInt16.toNat_toUInt32, h16]
    omega
  have hlow : (subBorrow x y s).toUInt16.toNat = (subBorrow x y s).toNat % 65536 :=
    UInt32.toNat_toUInt16 _
  have hflip : ((subBorrow x y s >>> 16) ^^^ 1).toNat + (subBorrow x y s).toNat / 65536 = 1 := by
    have hhigh : (subBorrow x y s >>> 16).toNat = (subBorrow x y s).toNat / 65536 := by
      rw [UInt32.toNat_shiftRight, Nat.shiftRight_eq_div_pow]
      rfl
    have hdiv : (subBorrow x y s).toNat / 65536 = 0 ∨ (subBorrow x y s).toNat / 65536 = 1 := by
      omega
    rcases hdiv with hdiv | hdiv <;> rw [hdiv] at hhigh
    · rw [hdiv, show subBorrow x y s >>> 16 = 0 from UInt32.toNat_inj.mp hhigh]
      rfl
    · rw [hdiv, show subBorrow x y s >>> 16 = 1 from UInt32.toNat_inj.mp hhigh]
      rfl
  have hsum := h.sum
  refine ⟨?_, ?_, hi⟩
  · show Digits.sum (s.digits.write s.i _) (s.i + 1) + y.padded.sum (s.i + 1) =
      x.digits.sum (s.i + 1) + ((subBorrow x y s >>> 16) ^^^ 1).toNat * 65536 ^ (s.i + 1)
    rw [Digits.sum_write_succ, Digits.sum_succ, Digits.sum_succ, hlow, pow_succ]
    -- the digits at `i`, without the power they are multiplied by
    have hdigit : (subBorrow x y s).toNat % 65536 + (y.padded s.i).toNat + s.carry.toNat =
        (x.digits s.i).toNat + ((subBorrow x y s >>> 16) ^^^ 1).toNat * 65536 := by omega
    linear_combination hsum + 65536 ^ s.i * hdigit
  · show ((subBorrow x y s >>> 16) ^^^ 1).toNat ≤ 1
    omega

theorem subLoop_spec (d : Digits) :
    SubInv x y (subLoop d x y) ∧ y.len ≤ (subLoop d x y).i ∧ (subLoop d x y).carry = 0 := by
  have h0 : SubInv x y ⟨0, 0, d⟩ := ⟨by simp [Digits.sum], Nat.zero_le _, Nat.zero_le _⟩
  have hstep (s : Ripple) := subInv_step hlen hle (s := s)
  have hinv : SubInv x y (subLoop d x y) := whileDo_inv hstep h0 _
  have hexit : ¬ ((subLoop d x y).i < y.len ∨ (subLoop d x y).carry ≠ 0) := by
    refine not_whileDo hstep (fun s => x.len - s.i) ?_ h0 (Nat.lt_succ_self _)
    intro s hs hc
    have hnext := (hstep s hs hc).i_le
    show _ - (s.i + 1) < _
    simp only [subStep] at hnext
    omega
  rw [not_or, not_not] at hexit
  exact ⟨hinv, by omega, hexit.2⟩

/-- **Subtraction** computes the difference of a number and a smaller one. -/
theorem val_sub (d : Digits) : (sub d x y).val = x.val - y.val := by
  obtain ⟨hinv, hy, hcarry⟩ := subLoop_spec hlen hle d
  rw [sub, val_shrink, val]
  generalize subLoop d x y = s at *
  have hsum := hinv.sum
  have hi := hinv.i_le
  rw [hcarry, sum_padded hy] at hsum
  simp only [UInt32.toNat_zero, zero_mul, add_zero] at hsum
  by_cases hlt : s.i < x.len
  · have hcpy := sum_memcpy (d := s.digits) hlt.le
    have hpad : x.padded.sum s.i = x.digits.sum s.i :=
      Digits.sum_congr fun j hj => if_pos (by omega)
    simp only [if_pos hlt]
    omega
  · have hix : s.i = x.len := by omega
    have hxv : x.val = x.digits.sum x.len := rfl
    simp only [if_neg hlt]
    rw [hix] at hsum
    omega

end Sub

theorem normal_sub (d : Digits) (x y : BigInt) : (sub d x y).Normal := normal_shrink _

/-! ## Multiplication -/

/-- The inner loop of `mul`: the row of `x.digits[i]`. -/
def mulRow (x y : BigInt) (i : Nat) (d : Digits) : UInt32 × Digits :=
  loopi y.len (fun j s =>
    let carry := s.1 + ((x.digits i).toUInt32 * (y.digits j).toUInt32 + (s.2 (i + j)).toUInt32)
    (carry >>> 16, s.2.write (i + j) carry.toUInt16)) (0, d)

/-- `bigint &mul(const bigint &x, const bigint &y)`, the array of the result being `d`,
which is not that of `x` or `y`. -/
def mul (d : Digits) (x y : BigInt) : BigInt :=
  if x.len = 0 ∨ y.len = 0 then ⟨0, d⟩
  else
    shrink ⟨x.len + y.len, loopi x.len (fun i d =>
      let row := mulRow x y i d
      row.2.write (i + y.len) row.1.toUInt16) (d.memset0 0 y.len)⟩

/-- What holds at the head of the inner loop, `e` being the digits it started with. -/
structure MulInv (x y : BigInt) (i : Nat) (e : Digits) (j : Nat) (s : UInt32 × Digits) :
    Prop where
  sum : s.2.sum (i + j) + s.1.toNat * 65536 ^ (i + j) =
    e.sum (i + j) + (x.digits i).toNat * 65536 ^ i * y.digits.sum j
  carry_lt : s.1.toNat < 65536
  /-- The digits further up are still the old ones. -/
  above : ∀ k, i + j ≤ k → s.2 k = e k

theorem mulRow_spec (x y : BigInt) (i : Nat) (e : Digits) :
    MulInv x y i e y.len (mulRow x y i e) := by
  have h0 : MulInv x y i e 0 (0, e) := 
    ⟨by simp [Digits.sum], by norm_num, fun k _ => rfl⟩
  refine loopi_inv h0 fun j _ s hs => ?_
  obtain ⟨c, d⟩ := s
  have hx := (x.digits i).toNat_lt
  have hy := (y.digits j).toNat_lt
  have hd := (d (i + j)).toNat_lt
  have hmul : (x.digits i).toNat * (y.digits j).toNat ≤ 65535 * 65535 :=
    Nat.mul_le_mul (by omega) (by omega)
  have hc := hs.carry_lt
  have hsum := hs.sum
  dsimp only at hc hsum ⊢
  set w := c + ((x.digits i).toUInt32 * (y.digits j).toUInt32 + (d (i + j)).toUInt32) with hw
  have hword : w.toNat =
      c.toNat + ((x.digits i).toNat * (y.digits j).toNat + (d (i + j)).toNat) := by
    rw [hw, UInt32.toNat_add, UInt32.toNat_add, UInt32.toNat_mul, UInt16.toNat_toUInt32,
      UInt16.toNat_toUInt32, UInt16.toNat_toUInt32]
    omega
  have hhigh : (w >>> 16).toNat = w.toNat / 65536 := by
    rw [UInt32.toNat_shiftRight, Nat.shiftRight_eq_div_pow]
    rfl
  refine ⟨?_, ?_, fun k hk => ?_⟩
  · have hwrite := Ripple.sum_write d (i + j) w
    rw [Ripple.sum, hword] at hwrite
    rw [← Nat.add_assoc, hwrite, Digits.sum_succ, Digits.sum_succ, ← hs.above (i + j) le_rfl]
    dsimp only
    rw [pow_add] at hsum ⊢
    linear_combination hsum
  · show (w >>> 16).toNat < 65536
    have hlt := w.toNat_lt
    omega
  · show d.write (i + j) _ k = e k
    rw [Digits.write, if_neg (by omega)]
    exact hs.above k (by omega)

/-- **Multiplication** computes the product. -/
theorem val_mul (d : Digits) (x y : BigInt) : (mul d x y).val = x.val * y.val := by
  rw [mul]
  split_ifs with h
  · rcases h with h | h
    · rw [show x.val = 0 by rw [val, h]; rfl, Nat.zero_mul]
      rfl
    · rw [show y.val = 0 by rw [val, h]; rfl, Nat.mul_zero]
      rfl
  rw [val_shrink]
  -- after `i` rows the array holds the product of `y` and the low `i` digits of `x`
  let inv (i : Nat) (d : Digits) : Prop := d.sum (i + y.len) = x.digits.sum i * y.val
  have h0 : inv 0 (d.memset0 0 y.len) := by
    have hzero (i : Nat) (_ : 0 ≤ i) (hi : i < 0 + y.len) : d.memset0 0 y.len i = 0 :=
      if_pos ⟨Nat.zero_le i, hi⟩
    show Digits.sum _ _ = 0 * y.val
    rw [zero_mul, Digits.sum_of_zeros (Nat.zero_le _) hzero]
    rfl
  have hstep (i : Nat) (_ : i < x.len) (e : Digits) (he : inv i e) :
      inv (i + 1) ((mulRow x y i e).2.write (i + y.len) (mulRow x y i e).1.toUInt16) := by
    have hrow := mulRow_spec x y i e
    have hcarry : (mulRow x y i e).1.toUInt16.toNat = (mulRow x y i e).1.toNat := by
      rw [UInt32.toNat_toUInt16]
      exact Nat.mod_eq_of_lt hrow.carry_lt
    show Digits.sum _ _ = x.digits.sum (i + 1) * y.val
    rw [show i + 1 + y.len = i + y.len + 1 by omega, Digits.sum_write_succ, hcarry, hrow.sum,
      show e.sum (i + y.len) = _ from he, Digits.sum_succ, show y.digits.sum y.len = y.val from rfl]
    ring
  exact loopi_inv h0 hstep

theorem normal_mul (d : Digits) (x y : BigInt) : (mul d x y).Normal := by
  rw [mul]
  split_ifs
  · exact fun n hn => absurd hn.symm (Nat.succ_ne_zero n)
  · exact normal_shrink _

end BigInt

end Zuckerserv

import Mathlib

/-!
# 32-bit words and their bytes

Arithmetic of `Int32` through its unsigned value, for code that packs an `int`
into bytes or into groups of bits.

* `unat` — the unsigned value; `toInt_eq` relates it to the signed one.
* `toUchar`, `ofUchar`, `ofChar` — the conversions between `int`, `unsigned char`
  and `signed char`.
* `word_of_bytes`, `short_of_bytes`, `ofChar_toUchar` — a word is put back
  together from its four, two or one low bytes.
* `and_bit_ne_zero`, `unat_group`, `unat_or_high` — testing a bit, flagging a group
  of seven bits, filling the bits above bit 28.
-/

namespace Word32

/-- The conversion of an `int` to an `unsigned char`: the low eight bits. -/
def toUchar (n : Int32) : UInt8 := n.toUInt32.toUInt8

/-- The promotion of an `unsigned char` to `int`. -/
def ofUchar (b : UInt8) : Int32 := b.toUInt32.toInt32

/-- The promotion of a `signed char` to `int`. -/
def ofChar (b : UInt8) : Int32 := b.toInt8.toInt32

/-- The unsigned value of a word. -/
def unat (n : Int32) : Nat := n.toBitVec.toNat

@[simp] theorem toBitVec_toUchar (n : Int32) :
    (toUchar n).toBitVec = n.toBitVec.setWidth 8 := by
  simp [toUchar]

@[simp] theorem toBitVec_ofUchar (b : UInt8) :
    (ofUchar b).toBitVec = b.toBitVec.setWidth 32 := by
  simp [ofUchar]

@[simp] theorem toBitVec_ofChar (b : UInt8) :
    (ofChar b).toBitVec = b.toBitVec.signExtend 32 := by
  simp [ofChar]

/-! ## The unsigned value -/

theorem unat_lt (n : Int32) : unat n < 2 ^ 32 := n.toBitVec.isLt

theorem unat_inj {m n : Int32} (h : unat m = unat n) : m = n :=
  Int32.toBitVec_inj.mp (BitVec.eq_of_toNat_eq h)

theorem toInt_eq (n : Int32) :
    n.toInt = if unat n < 2 ^ 31 then (unat n : Int) else unat n - 2 ^ 32 := by
  have := n.toBitVec.isLt
  rw [← Int32.toInt_toBitVec, BitVec.toInt_eq_toNat_cond]
  unfold unat
  by_cases h : n.toBitVec.toNat < 2 ^ 31
  · rw [if_pos h, if_pos (by omega)]
  · rw [if_neg h, if_neg (by omega)]
    norm_num

@[simp] theorem toNat_toUchar (n : Int32) : (toUchar n).toNat = unat n % 256 := by
  rw [← UInt8.toNat_toBitVec, toBitVec_toUchar, BitVec.toNat_setWidth]
  rfl

@[simp] theorem unat_ofUchar (b : UInt8) : unat (ofUchar b) = b.toNat := by
  rw [unat, toBitVec_ofUchar, BitVec.toNat_setWidth, UInt8.toNat_toBitVec]
  exact Nat.mod_eq_of_lt (by have := b.toNat_lt; omega)

theorem unat_add (m n : Int32) : unat (m + n) = (unat m + unat n) % 2 ^ 32 := by
  simp [unat]

theorem unat_sub (m n : Int32) : unat (m - n) = (2 ^ 32 - unat n + unat m) % 2 ^ 32 := by
  simp [unat]

theorem unat_shl7 (n : Int32) : unat (n <<< 7) = unat n * 2 ^ 7 % 2 ^ 32 := by
  simp [unat, Nat.shiftLeft_eq]

theorem unat_shl14 (n : Int32) : unat (n <<< 14) = unat n * 2 ^ 14 % 2 ^ 32 := by
  simp [unat, Nat.shiftLeft_eq]

theorem unat_shl21 (n : Int32) : unat (n <<< 21) = unat n * 2 ^ 21 % 2 ^ 32 := by
  simp [unat, Nat.shiftLeft_eq]

theorem toInt_shr7 (n : Int32) : (n >>> 7).toInt = n.toInt / 2 ^ 7 := by
  rw [← Int32.toInt_toBitVec, Int32.toBitVec_shiftRight]
  simp [BitVec.toInt_sshiftRight, Int.shiftRight_eq_div_pow]

theorem toInt_shr14 (n : Int32) : (n >>> 14).toInt = n.toInt / 2 ^ 14 := by
  rw [← Int32.toInt_toBitVec, Int32.toBitVec_shiftRight]
  simp [BitVec.toInt_sshiftRight, Int.shiftRight_eq_div_pow]

theorem toInt_shr21 (n : Int32) : (n >>> 21).toInt = n.toInt / 2 ^ 21 := by
  rw [← Int32.toInt_toBitVec, Int32.toBitVec_shiftRight]
  simp [BitVec.toInt_sshiftRight, Int.shiftRight_eq_div_pow]

/-- The low byte after an arithmetic shift. -/
theorem unat_shr_mod {m n : Int32} {k : Nat} (h : m.toInt = n.toInt / 2 ^ k) (hk : k ≤ 24) :
    unat m % 256 = unat n / 2 ^ k % 256 := by
  have hm := toInt_eq m
  have hpow : (2 : Int) ^ 32 = 256 * 2 ^ (24 - k) * 2 ^ k := by
    rw [mul_assoc, ← pow_add, Nat.sub_add_cancel hk]
    norm_num
  have hdiv : n.toInt / 2 ^ k % 256 = (unat n : Int) / 2 ^ k % 256 := by
    rw [toInt_eq n]
    split_ifs
    · rfl
    · rw [hpow, Int.sub_mul_ediv_right _ _ (by positivity), Int.sub_mul_emod_self_left]
  have hcast : (unat m : Int) % 256 = (unat n : Int) / 2 ^ k % 256 := by
    rw [← hdiv, ← h]
    split_ifs at hm <;> omega
  exact_mod_cast hcast

/-! ## Single bits and groups of bits -/

/-- Testing a word against a power of two tests one bit. -/
theorem and_bit_ne_zero {n m : Int32} {k : Nat} (hm : m.toBitVec = BitVec.twoPow 32 k)
    (hk : k < 32) : n &&& m ≠ 0 ↔ unat n / 2 ^ k % 2 = 1 := by
  have hpow : BitVec.twoPow 32 k ≠ 0#32 := by
    intro h
    have := congrArg BitVec.toNat h
    rw [BitVec.toNat_twoPow_of_lt hk] at this
    simp at this
  rw [Ne, ← Int32.toBitVec_inj, Int32.toBitVec_and, hm, BitVec.and_twoPow, BitVec.getLsbD,
    Nat.testBit_eq_decide_div_mod_eq]
  simp only [unat]
  split <;> simp_all

/-- Seven bits with the bit above them set. -/
theorem unat_group (n : Int32) : unat (0x80 ||| (n &&& 0x7F)) = 128 + unat n % 128 := by
  have h1 : (0x7F : Int32).toBitVec.toNat = 2 ^ 7 - 1 := by decide
  have h2 : (0x80 : Int32).toBitVec.toNat = 2 ^ 7 * 1 := by decide
  simp only [unat, Int32.toBitVec_or, Int32.toBitVec_and, BitVec.toNat_or, BitVec.toNat_and]
  rw [h1, h2, Nat.and_two_pow_sub_one_eq_mod,
    ← Nat.two_pow_add_eq_or_of_lt (Nat.mod_lt _ (by norm_num))]

theorem or_high {k r : Nat} (hr : r < 2 ^ k) (a b : Nat) :
    2 ^ k * a + r ||| 2 ^ k * b = 2 ^ k * (a ||| b) + r := by
  have hdistrib : 2 ^ k * (a ||| b) = 2 ^ k * a ||| 2 ^ k * b := by
    simp only [Nat.mul_comm (2 ^ k), ← Nat.shiftLeft_eq, Nat.shiftLeft_or_distrib]
  rw [Nat.two_pow_add_eq_or_of_lt hr, Nat.two_pow_add_eq_or_of_lt hr, hdistrib,
    Nat.or_right_comm]

/-- Filling the bits from bit 28 on, when bit 28 is the only one of them set. -/
theorem unat_or_high {n : Int32} (h : unat n / 2 ^ 28 = 1) :
    unat (n ||| ((-1 : Int32) <<< 28)) = unat n + 7 * 2 ^ 29 := by
  have hr : unat n % 2 ^ 28 < 2 ^ 28 := Nat.mod_lt _ (by norm_num)
  have hn : unat n = 2 ^ 28 * 1 + unat n % 2 ^ 28 := by omega
  have hhigh : unat ((-1 : Int32) <<< 28) = 2 ^ 28 * 15 := by decide
  calc unat (n ||| ((-1 : Int32) <<< 28))
      = unat n ||| unat ((-1 : Int32) <<< 28) := by
        simp only [unat, Int32.toBitVec_or, BitVec.toNat_or]
    _ = (2 ^ 28 * 1 + unat n % 2 ^ 28) ||| 2 ^ 28 * 15 := by rw [← hn, hhigh]
    _ = 2 ^ 28 * (1 ||| 15) + unat n % 2 ^ 28 := or_high hr 1 15
    _ = unat n + 7 * 2 ^ 29 := by
      rw [show 1 ||| 15 = 15 by decide]
      omega

/-! ## Words from their bytes -/

/-- Bit `i` of the byte that starts at bit `k`, put back in its place. -/
theorem getLsbD_byte (x : BitVec 32) (k : Nat) {i : Nat} (hi : i < 32) :
    (((x.sshiftRight k).setWidth 8).setWidth 32 <<< k).getLsbD i =
      (decide (k ≤ i ∧ i < k + 8) && x.getLsbD i) := by
  simp only [BitVec.getLsbD_shiftLeft, BitVec.getLsbD_setWidth, BitVec.getLsbD_sshiftRight]
  by_cases hk : k ≤ i
  · have hk' : ¬ i < k := by omega
    by_cases h8 : i < k + 8
    · have h1 : k + (i - k) = i := by omega
      have h2 : i - k < 8 := by omega
      have h3 : i - k < 32 := by omega
      have h4 : ¬ 32 ≤ i - k := by omega
      simp [hi, hk, hk', h8, h1, h2, h3, h4]
    · have h2 : ¬ i - k < 8 := by omega
      simp [h8, h2]
  · simp [hk]

/-- The four bytes of a word put back together. -/
theorem word_of_bytes (n : Int32) :
    ofUchar (toUchar n) ||| (ofUchar (toUchar (n >>> 8)) <<< 8) |||
      (ofUchar (toUchar (n >>> 16)) <<< 16) ||| (ofUchar (toUchar (n >>> 24)) <<< 24) = n := by
  apply Int32.toBitVec_inj.mp
  simp only [Int32.toBitVec_or, Int32.toBitVec_shiftLeft, toBitVec_ofUchar, toBitVec_toUchar,
    Int32.toBitVec_shiftRight]
  apply BitVec.eq_of_getLsbD_eq
  intro i hi
  have h0 : ((n.toBitVec.setWidth 8).setWidth 32).getLsbD i =
      (decide (i < 8) && n.toBitVec.getLsbD i) := by simp [hi]
  have h8 := getLsbD_byte n.toBitVec 8 hi
  have h16 := getLsbD_byte n.toBitVec 16 hi
  have h24 := getLsbD_byte n.toBitVec 24 hi
  rw [BitVec.getLsbD_or, BitVec.getLsbD_or, BitVec.getLsbD_or, h0]
  -- every bit comes from exactly one of the four bytes
  refine (congrArg₂ (· || ·) (congrArg₂ (· || ·) (congrArg₂ (· || ·) rfl h8) h16) h24).trans ?_
  cases n.toBitVec.getLsbD i
  · simp
  · simp
    omega

/-- A word whose value fits in `w` signed bits is the sign extension of its low `w` bits. -/
theorem signExtend_setWidth {n : Int32} {w : Nat} (hw : 0 < w) (hw32 : w ≤ 32)
    (h1 : n.toInt < 2 ^ (w - 1)) (h2 : -2 ^ (w - 1) ≤ n.toInt) :
    (n.toBitVec.setWidth w).signExtend 32 = n.toBitVec := by
  apply BitVec.eq_of_toInt_eq
  have hpow : (2 : Int) ^ w = 2 * 2 ^ (w - 1) := by
    rw [← pow_succ', Nat.sub_add_cancel hw]
  rw [BitVec.toInt_signExtend_of_le hw32, BitVec.toInt_setWidth,
    ← Int.bmod_bmod_of_dvd (by exact_mod_cast pow_dvd_pow 2 hw32),
    ← BitVec.toInt_eq_toNat_bmod, Int32.toInt_toBitVec]
  apply Int.bmod_eq_of_le_mul_two
  all_goals
    push_cast
    rw [hpow]
    omega

/-- The two bytes of a `short` put back together, the high one sign-extended. -/
theorem short_of_bytes {n : Int32} (h1 : n < 0x8000) (h2 : n ≥ -0x8000) :
    ofUchar (toUchar n) ||| (ofChar (toUchar (n >>> 8)) <<< 8) = n := by
  have hs : (n.toBitVec.setWidth 16).signExtend 32 = n.toBitVec :=
    signExtend_setWidth (by norm_num) (by norm_num)
      (by simpa [Int32.lt_iff_toInt_lt] using h1) (by simpa [Int32.le_iff_toInt_le] using h2)
  apply Int32.toBitVec_inj.mp
  simp only [Int32.toBitVec_or, Int32.toBitVec_shiftLeft, toBitVec_ofUchar, toBitVec_toUchar,
    Int32.toBitVec_shiftRight, toBitVec_ofChar]
  ext i hi
  conv_rhs => rw [← hs]
  simp only [BitVec.getElem_or, BitVec.getElem_setWidth]
  simp [BitVec.getLsbD_sshiftRight, BitVec.getElem_signExtend]
  rcases lt_or_ge i 8 with h0 | h0
  · simp [h0, show i < 16 by omega]
  rcases lt_or_ge i 16 with h1 | h1
  · simp [show ¬ i < 8 by omega, h1, show i - 8 < 8 by omega, show 8 + (i - 8) = i by omega]
    grind
  · simp [show ¬ i < 8 by omega, show ¬ i < 16 by omega, show ¬ i - 8 < 8 by omega,
      BitVec.msb_setWidth]
    grind

/-- A word that fits in a `signed char` is put back together from its low byte. -/
theorem ofChar_toUchar {n : Int32} (h1 : n < 128) (h2 : n ≥ -128) : ofChar (toUchar n) = n := by
  apply Int32.toBitVec_inj.mp
  rw [toBitVec_ofChar, toBitVec_toUchar]
  exact signExtend_setWidth (by norm_num) (by norm_num)
    (by simpa [Int32.lt_iff_toInt_lt] using h1) (by simpa [Int32.le_iff_toInt_le] using h2)

theorem toUchar_ofChar (b : UInt8) : toUchar (ofChar b) = b := by
  apply UInt8.toBitVec_inj.mp
  rw [toBitVec_toUchar, toBitVec_ofChar]
  ext i hi
  simp only [BitVec.getElem_setWidth, BitVec.getLsbD_signExtend]
  simp [hi, show i < 32 by omega]

theorem ofChar_inj {a b : UInt8} : ofChar a = ofChar b ↔ a = b := by
  refine ⟨fun h => ?_, fun h => h ▸ rfl⟩
  rw [← toUchar_ofChar a, h, toUchar_ofChar]

end Word32

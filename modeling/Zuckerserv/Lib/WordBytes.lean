import Zuckerserv.Lib.Word32

/-!
# Words in two and three bytes

A word that is written byte by byte, lowest byte first, is put back together by shifts.

* `toUchar_and` — the mask of a byte that is cut off anyway.
* `pair_of_bytes` — a number of 16 bits in two bytes.
* `triple_of_bytes` — a number of 24 bits with a sign in three bytes.
-/

namespace Word32

/-- The mask `0xFF` changes nothing on the way to a byte. -/
theorem toUchar_and (n : Int32) : toUchar (n &&& 0xFF) = toUchar n := by
  have hmask : (0xFF : Int32).toBitVec.toNat = 2 ^ 8 - 1 := by decide
  have hand : unat (n &&& 0xFF) = unat n % 256 := by
    simp only [unat, Int32.toBitVec_and, BitVec.toNat_and]
    rw [hmask, Nat.and_two_pow_sub_one_eq_mod]
  apply UInt8.toNat_inj.mp
  rw [toNat_toUchar, toNat_toUchar, hand, Nat.mod_mod]

theorem toInt_shr16 (n : Int32) : (n >>> 16).toInt = n.toInt / 2 ^ 16 := by
  rw [← Int32.toInt_toBitVec, Int32.toBitVec_shiftRight]
  simp [BitVec.toInt_sshiftRight, Int.shiftRight_eq_div_pow]

theorem toInt_shr24 (n : Int32) : (n >>> 24).toInt = n.toInt / 2 ^ 24 := by
  rw [← Int32.toInt_toBitVec, Int32.toBitVec_shiftRight]
  simp [BitVec.toInt_sshiftRight, Int.shiftRight_eq_div_pow]

/-- The third and the fourth byte of a word. -/
theorem toNat_toUchar_shr (n : Int32) : (toUchar (n >>> 16)).toNat = unat n / 2 ^ 16 % 256 ∧
    (toUchar (n >>> 24)).toNat = unat n / 2 ^ 24 % 256 := by
  rw [toNat_toUchar, toNat_toUchar]
  exact ⟨unat_shr_mod (toInt_shr16 n) (by norm_num), unat_shr_mod (toInt_shr24 n) (by norm_num)⟩

/-- The two bytes of a number of 16 bits. -/
theorem pair_of_bytes {n : Int32} (h : unat n < 2 ^ 16) :
    ofUchar (toUchar (n &&& 0xFF)) ||| (ofUchar (toUchar ((n >>> 8) &&& 0xFF)) <<< 8) = n := by
  obtain ⟨h16, h24⟩ := toNat_toUchar_shr n
  have h2 : toUchar (n >>> 16) = 0 := UInt8.toNat_inj.mp (by rw [h16]; show _ = 0; omega)
  have h3 : toUchar (n >>> 24) = 0 := UInt8.toNat_inj.mp (by rw [h24]; show _ = 0; omega)
  have hword := word_of_bytes n
  have hzero : (ofUchar 0 <<< 16 : Int32) = 0 ∧ (ofUchar 0 <<< 24 : Int32) = 0 := by decide
  rw [h2, h3, hzero.1, hzero.2, Int32.or_zero, Int32.or_zero] at hword
  rw [toUchar_and, toUchar_and]
  exact hword

/-- The three bytes of a number of 24 bits, with its sign. -/
theorem triple_of_bytes {n m : Int32} (h : -2 ^ 23 ≤ n.toInt ∧ n.toInt < 2 ^ 23)
    (hm : m = ofUchar (toUchar (n &&& 0xFF)) ||| (ofUchar (toUchar ((n >>> 8) &&& 0xFF)) <<< 8) |||
      (ofUchar (toUchar ((n >>> 16) &&& 0xFF)) <<< 16)) :
    (if m &&& 0x800000 ≠ 0 then m ||| ((-1 : Int32) <<< 24) else m) = n := by
  rw [toUchar_and, toUchar_and, toUchar_and] at hm
  have hword := word_of_bytes n
  rw [← hm] at hword
  have hn := toInt_eq n
  have hlt := unat_lt n
  have h24 := (toNat_toUchar_shr n).2
  have hbit (k : Int32) : k &&& 0x800000 ≠ 0 ↔ unat k / 2 ^ 23 % 2 = 1 :=
    and_bit_ne_zero (by decide) (by norm_num)
  by_cases hneg : unat n < 2 ^ 31
  · rw [if_pos hneg] at hn
    have h3 : toUchar (n >>> 24) = 0 := UInt8.toNat_inj.mp (by rw [h24]; show _ = 0; omega)
    have hzero : (ofUchar 0 <<< 24 : Int32) = 0 := by decide
    rw [h3, hzero, Int32.or_zero] at hword
    rw [hword, if_neg]
    rw [hbit]
    omega
  · rw [if_neg hneg] at hn
    have h3 : toUchar (n >>> 24) = 255 := UInt8.toNat_inj.mp (by rw [h24]; show _ = 255; omega)
    have hhigh : (ofUchar 255 <<< 24 : Int32) = (-1 : Int32) <<< 24 := by decide
    rw [h3, hhigh] at hword
    have hsign : m &&& 0x800000 = n &&& 0x800000 := by
      have hnone : ((-1 : Int32) <<< 24).toBitVec &&& (0x800000 : Int32).toBitVec = 0#32 := by
        decide
      apply Int32.toBitVec_inj.mp
      rw [← hword, Int32.toBitVec_and, Int32.toBitVec_and, Int32.toBitVec_or,
        BitVec.and_or_distrib_right, hnone, BitVec.or_zero]
    rw [hsign, if_pos, hword]
    rw [hbit]
    omega

end Word32

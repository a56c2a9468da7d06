import Mathlib.Algebra.Group.Nat.Defs
import Mathlib.Order.Nat
import Zuckerserv.Lib.Radix

/-!
# Addresses and prefixes

An address of 32 bits, and a prefix of some of its bits. What a prefix has beyond its length is
left in it, and masked where it is compared.

* `Prefix`, `commonPrefix`, `Prefix.shift` — the prefixes and their operations.
* `Prefix.bits` — the bits of a prefix.
* `bits_common_left`, `bits_shift` — the operations on the bits.
-/

namespace Zuckerserv

namespace Net

/-- `address_mask(bits).value()`. -/
def maskValue (bits : Nat) : BitVec 32 := BitVec.ofNat 32 (2 ^ bits - 1) <<< (32 - bits)

/-- An `address_prefix`; its mask is given by the number of bits. -/
structure Prefix where
  value : BitVec 32
  mask : Nat
  deriving DecidableEq

/-- `m_addr_prefix.first_bit()`. -/
def Prefix.firstBit (p : Prefix) : Bool := p.value.msb

/-- `p <<= address_mask(n)`. -/
def Prefix.shift (p : Prefix) (n : Nat) : Prefix := ⟨p.value <<< n, p.mask - n⟩

/-- How many bits the prefixes have in common: the first `i` where they differ under the mask of
`i + 1` bits. -/
def commonMaskBits (first second : Prefix) : Nat :=
  let n := min first.mask second.mask
  ((List.range n).find? fun i =>
    decide (first.value &&& maskValue (i + 1) ≠ second.value &&& maskValue (i + 1))).getD n

/-- `address_prefix::common_prefix(first, second)`. -/
def commonPrefix (first second : Prefix) : Prefix :=
  ⟨first.value &&& maskValue (commonMaskBits first second), commonMaskBits first second⟩

/-! ## The bits -/

/-- The bits of a prefix, the first one first. -/
def Prefix.bits (p : Prefix) : List Bool := (List.range p.mask).map p.value.getMsbD

variable {p q : Prefix} {a b : BitVec 32} {n i : Nat}

@[simp] theorem length_bits (p : Prefix) : p.bits.length = p.mask := by
  rw [Prefix.bits, List.length_map, List.length_range]

theorem bits_getElem? (h : i < p.mask) : p.bits[i]? = some (p.value.getMsbD i) := by
  rw [Prefix.bits, List.getElem?_map, List.getElem?_range h]
  rfl

/-- What is shifted off is dropped. -/
theorem bits_shift (p : Prefix) (n : Nat) : (p.shift n).bits = p.bits.drop n := by
  refine List.ext_getElem? fun i => ?_
  rw [List.getElem?_drop]
  rcases Nat.lt_or_ge i (p.mask - n) with hi | hi
  · have hshift : (p.shift n).bits[i]? = some ((p.value <<< n).getMsbD i) := bits_getElem? hi
    rw [hshift, bits_getElem? (Nat.add_comm n i ▸ Nat.add_lt_of_lt_sub hi),
      BitVec.getMsbD_shiftLeft, Nat.add_comm]
  · rw [List.getElem?_eq_none (by rw [length_bits]; exact hi),
      List.getElem?_eq_none (by rw [length_bits]; omega)]

/-- A prefix begins with its first bit. -/
theorem bits_eq_cons (h : 0 < p.mask) : p.bits = p.firstBit :: p.bits.drop 1 := by
  have hhead := bits_getElem? h
  rw [← BitVec.msb_eq_getMsbD_zero] at hhead
  cases hbits : p.bits with
  | nil =>
    rw [hbits] at hhead
    exact absurd hhead (by simp)
  | cons b bs =>
    rw [hbits] at hhead
    have hb : b = p.firstBit := Option.some.inj hhead
    rw [hb]
    rfl

theorem bits_eq_nil (h : p.mask = 0) : p.bits = [] := by
  rw [Prefix.bits, h]
  rfl

/-- The mask has as many bits as it says. -/
theorem maskValue_getMsbD (hn : n ≤ 32) (hi : i < 32) :
    (maskValue n).getMsbD i = decide (i < n) := by
  unfold maskValue
  rw [BitVec.getMsbD_shiftLeft, BitVec.getMsbD]
  by_cases hlt : i < n
  · have hin : i + (32 - n) < 32 := by omega
    rw [decide_eq_true hin, Bool.true_and, BitVec.getLsbD_ofNat, Nat.testBit_two_pow_sub_one,
      decide_eq_true (show 32 - 1 - (i + (32 - n)) < 32 by omega), Bool.true_and,
      decide_eq_true hlt]
    exact decide_eq_true (by omega)
  · rw [decide_eq_false (show ¬ i + (32 - n) < 32 by omega), Bool.false_and, decide_eq_false hlt]

/-- Under a mask, addresses are the same if and only if they agree in its bits. -/
theorem masked_eq_iff (hn : n ≤ 32) :
    a &&& maskValue n = b &&& maskValue n ↔ ∀ i < n, a.getMsbD i = b.getMsbD i := by
  constructor
  · intro h i hi
    have hbit := congrArg (·.getMsbD i) h
    rwa [BitVec.getMsbD_and, BitVec.getMsbD_and, maskValue_getMsbD hn (by omega),
      decide_eq_true hi, Bool.and_true, Bool.and_true] at hbit
  · intro h
    refine BitVec.eq_of_getMsbD_eq fun i hi => ?_
    rw [BitVec.getMsbD_and, BitVec.getMsbD_and, maskValue_getMsbD hn hi]
    by_cases hin : i < n
    · rw [h i hin]
    · rw [decide_eq_false hin, Bool.and_false, Bool.and_false]

/-- Prefixes of the same length have the same bits if and only if they agree under the mask. -/
theorem bits_eq_iff (hp : p.mask ≤ 32) :
    p.bits = q.bits ↔
      p.mask = q.mask ∧ p.value &&& maskValue p.mask = q.value &&& maskValue p.mask := by
  rw [masked_eq_iff hp]
  constructor
  · intro h
    have hmask : p.mask = q.mask := by rw [← length_bits, h, length_bits]
    refine ⟨hmask, fun i hi => ?_⟩
    have hbit := bits_getElem? hi
    rw [h, bits_getElem? (hmask ▸ hi)] at hbit
    exact (Option.some.inj hbit).symm
  · rintro ⟨hmask, h⟩
    rw [Prefix.bits, Prefix.bits, ← hmask]
    exact List.map_congr_left fun i hi => h i (List.mem_range.mp hi)

/-! ## What prefixes have in common -/

theorem commonMaskBits_le (p q : Prefix) : commonMaskBits p q ≤ min p.mask q.mask := by
  unfold commonMaskBits
  dsimp only
  cases h : (List.range (min p.mask q.mask)).find? _ with
  | none => exact Nat.le_refl _
  | some i => exact Nat.le_of_lt (List.mem_range.mp (List.mem_of_find?_eq_some h))

/-- The prefixes agree in the bits that they have in common. -/
theorem common_agree (hp : p.mask ≤ 32) (hi : i < commonMaskBits p q) :
    p.value.getMsbD i = q.value.getMsbD i := by
  unfold commonMaskBits at hi
  dsimp only at hi
  have hequal {k : Nat} (hk : k ≤ 32) (h : ¬ (p.value &&& maskValue k ≠ q.value &&& maskValue k))
      (hik : i < k) : p.value.getMsbD i = q.value.getMsbD i :=
    (masked_eq_iff hk).mp (not_not.mp h) i hik
  cases h : (List.range (min p.mask q.mask)).find? _ with
  | none =>
    rw [h] at hi
    have hin : i < min p.mask q.mask := hi
    have hnot := List.find?_eq_none.mp h i (List.mem_range.mpr hin)
    exact hequal (by omega) (by simpa using hnot) (Nat.lt_succ_self i)
  | some k =>
    rw [h] at hi
    have hik : i < k := hi
    have hnot := (List.find?_range_eq_some.mp h).2.2 i hik
    have hk : k < min p.mask q.mask := List.mem_range.mp (List.mem_of_find?_eq_some h)
    exact hequal (by omega) (by simpa using hnot) (Nat.lt_succ_self i)

/-- Where neither prefix ends, they differ in the bit after those that they have in common. -/
theorem common_differ (hp : p.mask ≤ 32) (h : commonMaskBits p q < min p.mask q.mask) :
    p.value.getMsbD (commonMaskBits p q) ≠ q.value.getMsbD (commonMaskBits p q) := by
  intro hsame
  have hagree : ∀ i < commonMaskBits p q + 1, p.value.getMsbD i = q.value.getMsbD i := by
    intro i hi
    rcases Nat.lt_succ_iff_lt_or_eq.mp hi with hlt | rfl
    · exact common_agree hp hlt
    · exact hsame
  have hmasked := (masked_eq_iff (show commonMaskBits p q + 1 ≤ 32 by omega)).mpr hagree
  unfold commonMaskBits at h hmasked
  dsimp only at h hmasked
  cases hfind : (List.range (min p.mask q.mask)).find? _ with
  | none =>
    rw [hfind] at h
    exact absurd h (Nat.lt_irrefl _)
  | some k =>
    rw [hfind] at hmasked
    exact absurd hmasked (by simpa using List.find?_some hfind)

/-- The bits of the common prefix are the first ones of either prefix. -/
theorem bits_common_left (hp : p.mask ≤ 32) :
    (commonPrefix p q).bits = p.bits.take (commonMaskBits p q) := by
  have hle := commonMaskBits_le p q
  have hmasked : (commonPrefix p q).bits = (Prefix.mk p.value (commonMaskBits p q)).bits := by
    refine (bits_eq_iff (by unfold commonPrefix; dsimp only; omega)).mpr ⟨rfl, ?_⟩
    unfold commonPrefix
    dsimp only
    rw [BitVec.and_assoc, BitVec.and_self]
  rw [hmasked, Prefix.bits, Prefix.bits, ← List.map_take, List.take_range,
    Nat.min_eq_left (by omega)]

theorem bits_common_right (hp : p.mask ≤ 32) :
    (commonPrefix p q).bits = q.bits.take (commonMaskBits p q) := by
  have hle := commonMaskBits_le p q
  rw [bits_common_left hp, Prefix.bits, Prefix.bits, ← List.map_take, ← List.map_take,
    List.take_range, List.take_range, Nat.min_eq_left (by omega), Nat.min_eq_left (by omega)]
  exact List.map_congr_left fun i hi => common_agree hp (List.mem_range.mp hi)

/-- A prefix has all its bits in common with another if and only if it is a front of it. -/
theorem common_eq_iff (hp : p.mask ≤ 32) : commonMaskBits p q = p.mask ↔ p.bits <+: q.bits := by
  have hle := commonMaskBits_le p q
  constructor
  · intro h
    have hright := bits_common_right (q := q) hp
    rw [bits_common_left hp, h, List.take_of_length_le (by rw [length_bits])] at hright
    rw [hright]
    exact List.take_prefix _ _
  · intro h
    have hlength := h.length_le
    rw [length_bits, length_bits] at hlength
    by_contra hne
    have hlt : commonMaskBits p q < min p.mask q.mask := by omega
    refine common_differ hp hlt ?_
    have hp' : commonMaskBits p q < p.mask := by omega
    have hq' : commonMaskBits p q < q.mask := by omega
    obtain ⟨t, ht⟩ := h
    have hbit := bits_getElem? hq'
    rw [← ht, List.getElem?_append_left (by rw [length_bits]; exact hp'),
      bits_getElem? hp'] at hbit
    exact Option.some.inj hbit

end Net

end Zuckerserv

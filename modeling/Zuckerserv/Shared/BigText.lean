import Zuckerserv.Shared.BigShift
import Zuckerserv.Shared.Challenge

/-!
# Big integers over their operands, and as text

`x.add(y)` and `x.sub(y)` write over the digits that they read. Each digit is read in the round that
overwrites it, and none of them later. The text of a number has four hexadecimal digits for each of
its digits, the highest one first.

* `addSelf`, `subSelf` — the operations over their first operand.
* `addSelf_eq`, `subSelf_eq` — the results are those for separate arrays.
* `printdigits` — the text.
* `val_parse`, `printdigits_eq` — parsing and printing are those of the number.
* `arithmetic_val` — what the operations compute, on normal numbers.
-/

namespace Zuckerserv

open Loop DigitSum

namespace BigInt

/-! ## Over the first operand -/

/-- The operand `x` when the loop has written over some of its digits. -/
def overwritten (x : BigInt) (s : Ripple) : BigInt := { x with digits := s.digits }

/-- `add(y)`, which is `add(*this, y)`. -/
def addSelf (x y : BigInt) : BigInt :=
  let s := whileDo (fun s : Ripple => s.i < y.len ∨ s.carry ≠ 0)
    (fun s => addStep (x.overwritten s) y s) (max x.len y.len + 2) ⟨0, 0, x.digits⟩
  ⟨max s.i (max x.len y.len), s.digits⟩

/-- `sub(y)`, which is `sub(*this, y)`. -/
def subSelf (x y : BigInt) : BigInt :=
  let s := whileDo (fun s : Ripple => s.i < y.len ∨ s.carry ≠ 0)
    (fun s => subStep (x.overwritten s) y s) (x.len + 1) ⟨0, 0, x.digits⟩
  shrink ⟨x.len, s.digits⟩

/-- The digits that the loop has not reached are still those of `x`. -/
def Unread (x : BigInt) (s : Ripple) : Prop := ∀ j, s.i ≤ j → s.digits j = x.digits j

theorem Unread.write {x : BigInt} {s : Ripple} (h : x.Unread s) (carry : UInt32) (v : UInt16) :
    x.Unread ⟨s.i + 1, carry, s.digits.write s.i v⟩ := by
  intro j (hj : s.i + 1 ≤ j)
  show (s.digits.write s.i v) j = x.digits j
  rw [Digits.write, if_neg (by omega)]
  exact h j (by omega)

theorem Unread.addStep_eq {x y : BigInt} {s : Ripple} (h : x.Unread s) :
    addStep (x.overwritten s) y s = addStep x y s := by
  have hread := h s.i le_rfl
  simp only [addStep, addCarry, overwritten, hread]

theorem Unread.subStep_eq {x y : BigInt} {s : Ripple} (h : x.Unread s) :
    subStep (x.overwritten s) y s = subStep x y s := by
  have hread := h s.i le_rfl
  simp only [subStep, subBorrow, overwritten, hread]

/-- Copying the digits that have not been read does nothing. -/
theorem Unread.memcpy_eq {x : BigInt} {s : Ripple} (h : x.Unread s) :
    s.digits.memcpy s.i x.digits s.i (x.len - s.i) = s.digits := by
  funext j
  rw [Digits.memcpy]
  split_ifs with hj
  · rw [Nat.add_sub_cancel' hj.1]
    exact (h j hj.1).symm
  · rfl

/-- Adding over the first operand. -/
theorem addSelf_eq (x y : BigInt) : addSelf x y = add x.digits x y := by
  have hstep (s : Ripple) (hs : x.Unread s) (_ : s.i < y.len ∨ s.carry ≠ 0) :
      x.Unread (addStep x y s) := hs.write _ _
  have h0 : x.Unread ⟨0, 0, x.digits⟩ := fun _ _ => rfl
  have hloop := whileDo_congr hstep (fun s hs _ => (hs.addStep_eq (y := y)).symm) h0
    (max x.len y.len + 2)
  have hunread := whileDo_inv hstep h0 (max x.len y.len + 2)
  rw [addSelf, ← hloop, add, addLoop]
  rw [hunread.memcpy_eq, ite_self]

/-- Subtracting from the first operand. -/
theorem subSelf_eq (x y : BigInt) : subSelf x y = sub x.digits x y := by
  have hstep (s : Ripple) (hs : x.Unread s) (_ : s.i < y.len ∨ s.carry ≠ 0) :
      x.Unread (subStep x y s) := hs.write _ _
  have h0 : x.Unread ⟨0, 0, x.digits⟩ := fun _ _ => rfl
  have hloop := whileDo_congr hstep (fun s hs _ => (hs.subStep_eq (y := y)).symm) h0 (x.len + 1)
  have hunread := whileDo_inv hstep h0 (x.len + 1)
  rw [subSelf, ← hloop, sub, subLoop]
  rw [hunread.memcpy_eq, ite_self]

/-! ## Parsing -/

/-- The digits of a text, from its end. -/
def hexdigits (s : List Char) (j : Nat) : Nat := (hexval (s.getD (s.length - j - 1) '0')).toNat

theorem hexval_lt {c : Char} (h : isxdigit c = true) : (hexval c).toNat < 16 := by
  have hle (a b : Char) : a ≤ b ↔ a.toNat ≤ b.toNat := UInt32.le_iff_toNat_le
  have hnat (n : Nat) (hn : n < 16) : n.toUInt16.toNat < 16 := by
    rw [Nat.toUInt16_eq, UInt16.toNat_ofNat', Nat.mod_eq_of_lt (by omega)]
    exact hn
  rw [isxdigit, decide_eq_true_eq] at h
  simp only [hle, Char.reduceToNat] at h
  rw [hexval]
  apply hnat
  simp only [hle, Char.reduceToNat]
  split_ifs <;> omega

/-- Putting one more hexadecimal digit over those that a digit has. -/
theorem toNat_or_shl {t v : UInt16} {r : Nat} (hr : r < 4) (ht : t.toNat < 16 ^ r)
    (hv : v.toNat < 16) :
    (t ||| (v <<< (4 * r).toUInt16)).toNat = t.toNat + v.toNat * 16 ^ r := by
  have hpow : 16 ^ r = 2 ^ (4 * r) := by
    rw [pow_mul]
    norm_num
  have hcount : (4 * r).toUInt16.toNat % 16 = 4 * r := by
    rw [Nat.toUInt16_eq, UInt16.toNat_ofNat', Nat.mod_eq_of_lt (by omega)]
    omega
  have htop : 16 ^ r ≤ 16 ^ 3 := Nat.pow_le_pow_right (by decide) (by omega)
  have hlt : v.toNat * 2 ^ (4 * r) < 2 ^ 16 := by
    rw [← hpow]
    have : v.toNat * 16 ^ r ≤ 15 * 16 ^ 3 := Nat.mul_le_mul (by omega) htop
    omega
  have hshl : (v <<< (4 * r).toUInt16).toNat = v.toNat <<< (4 * r) := by
    rw [UInt16.toNat_shiftLeft, hcount, Nat.shiftLeft_eq, Nat.mod_eq_of_lt hlt]
  rw [hpow] at ht
  rw [UInt16.toNat_or, hshl, Nat.or_comm, ← Nat.shiftLeft_add_eq_or_of_lt ht, Nat.shiftLeft_eq,
    hpow, Nat.add_comm]

/-- Reading a text from its front is adding its digits up from the end. -/
theorem foldl_hexval (s : List Char) (n : Nat) :
    s.foldl (fun n c => n * 16 + (hexval c).toNat) n =
      n * 16 ^ s.length + digitSum 16 (hexdigits s) s.length := by
  induction s generalizing n with
  | nil => simp
  | cons c s ih =>
    have htail : digitSum 16 (hexdigits (c :: s)) s.length =
        digitSum 16 (hexdigits s) s.length := by
      refine digitSum_congr fun j hj => ?_
      have hplace : (c :: s).length - j - 1 = s.length - j - 1 + 1 := by
        rw [List.length_cons]
        omega
      rw [hexdigits, hexdigits, hplace, List.getD_cons_succ]
    have hhead : hexdigits (c :: s) s.length = (hexval c).toNat := by
      have hplace : (c :: s).length - s.length - 1 = 0 := by
        rw [List.length_cons]
        omega
      rw [hexdigits, hplace, List.getD_cons_zero]
    rw [List.foldl_cons, ih, List.length_cons, digitSum_succ, htail, hhead, pow_succ]
    ring

/-- Writing over one of the digits. -/
theorem sum_write_add (d : Digits) {i n : Nat} (v : UInt16) (hi : i < n) :
    (d.write i v).sum n + (d i).toNat * 65536 ^ i = d.sum n + v.toNat * 65536 ^ i := by
  induction n, hi using Nat.le_induction with
  | base => 
    rw [Digits.sum_write_succ, Digits.sum_succ]
    ring
  | succ n hin ih =>
    have hother : d.write i v n = d n := if_neg (by omega)
    rw [Digits.sum_succ, Digits.sum_succ, hother]
    omega

/-- What holds in the loop of `parsedigits`: the digits stand for the end of the text, and the
places that it has not reached are free. -/
structure ParseInv (s : List Char) (len i : Nat) (d : Digits) : Prop where
  sum : d.sum len = digitSum 16 (hexdigits s) i
  free : ∀ k, i / 4 ≤ k → k < len → (d k).toNat < 16 ^ (i - 4 * k)

theorem parseInv_step {s : List Char} {len i : Nat} {d : Digits} (h : ParseInv s len i d)
    (hs : ∀ c ∈ s, isxdigit c = true) (hi : i < s.length) (hlen : i / 4 < len) :
    ParseInv s len (i + 1) (d.write (i / 4) (d (i / 4) |||
      (hexval (s.getD (s.length - i - 1) '0') <<< (4 * (i % 4)).toUInt16))) := by
  have hmod : i - 4 * (i / 4) = i % 4 := by omega
  have hfree := h.free (i / 4) le_rfl hlen
  have hdigit : (hexval (s.getD (s.length - i - 1) '0')).toNat < 16 := by
    apply hexval_lt
    rw [List.getD_eq_getElem _ _ (by omega)]
    exact hs _ (List.getElem_mem _)
  rw [hmod] at hfree
  have hnew := toNat_or_shl (Nat.mod_lt i (by decide)) hfree hdigit
  refine ⟨?_, fun k hk hkl => ?_⟩
  · have hsum := sum_write_add d (d (i / 4) |||
      (hexval (s.getD (s.length - i - 1) '0') <<< (4 * (i % 4)).toUInt16)) hlen
    have hpow : 16 ^ i = 16 ^ (i % 4) * 65536 ^ (i / 4) := by
      rw [show 65536 = 16 ^ 4 by norm_num, ← pow_mul, ← pow_add, Nat.mod_add_div]
    rw [digitSum_succ, hpow, hexdigits, ← h.sum]
    rw [hnew] at hsum
    linear_combination hsum
  · rw [Digits.write]
    split_ifs with hki
    · subst hki
      have hexp : i + 1 - 4 * (i / 4) = i % 4 + 1 := by omega
      rw [hnew, hexp, pow_succ]
      nlinarith [Nat.one_le_pow (i % 4) 16 (by decide)]
    · -- a place further up is still zero
      have hzero := h.free k (by omega) hkl
      have hexp : i - 4 * k = 0 := by omega
      rw [hexp, pow_zero] at hzero
      exact Nat.lt_of_lt_of_le hzero (Nat.one_le_pow _ _ (by decide))

/-- **Parsing** reads the number of the text. -/
theorem val_parse (d : Digits) (maxlen : Nat) (s : List Char) :
    (parse d maxlen s).val = Challenge.parsedigits maxlen s := by
  rw [parse, parsedigits, Challenge.parsedigits]
  generalize htext : s.takeWhile isxdigit = t
  have hhex : ∀ c ∈ t, isxdigit c = true := by
    intro c hc
    rw [← htext] at hc
    exact List.mem_takeWhile_imp hc
  dsimp only
  split_ifs with hlen
  · rfl
  · have h0 : ParseInv t ((t.length + 3) / 4) 0 (d.memset0 0 ((t.length + 3) / 4)) := by
      have hzero (k : Nat) (_ : 0 ≤ k) (hk : k < (t.length + 3) / 4) :
          d.memset0 0 ((t.length + 3) / 4) k = 0 := if_pos ⟨Nat.zero_le k, by omega⟩
      refine ⟨?_, fun k hk hkl => ?_⟩
      · rw [Digits.sum_of_zeros (Nat.zero_le _) hzero]
        rfl
      · rw [hzero k (Nat.zero_le k) hkl]
        exact Nat.one_le_pow _ _ (by decide)
    have hloop := loopi_inv h0 fun i hi d hd => parseInv_step hd hhex hi (by omega)
    rw [val_shrink, foldl_hexval, Nat.zero_mul, Nat.zero_add]
    exact hloop.sum

/-! ## Printing -/

/-- The text of one digit, as `printdigits` makes it. -/
def worddigits (d : UInt16) : List Char :=
  (List.range 4).map fun j => Challenge.digit ((d >>> (16 - (j + 1) * 4).toUInt16) &&& 0xF).toNat

/-- `void printdigits(vector<char> &buf) const`. -/
def printdigits (x : BigInt) : List Char :=
  (List.range x.len).flatMap fun i => worddigits (x.digits (x.len - i - 1))

theorem worddigits_eq (d : UInt16) : worddigits d = Challenge.word d.toNat := by
  have hmask (n : UInt16) : (n &&& 0xF).toNat = n.toNat % 16 := by
    rw [UInt16.toNat_and]
    exact Nat.and_two_pow_sub_one_eq_mod n.toNat 4
  simp only [worddigits, hmask, UInt16.toNat_shiftRight]
  rfl

theorem ofDigits_range (f : Nat → Nat) (n : Nat) :
    Nat.ofDigits 65536 ((List.range n).map f) = digitSum 65536 f n := by
  induction n with
  | zero => rfl
  | succ n ih =>
    rw [List.range_succ, List.map_append, Nat.ofDigits_append, ih, List.length_map,
      List.length_range, List.map_singleton, Nat.ofDigits_singleton, digitSum_succ, Nat.mul_comm]

/-- The digits of a normal number are those of its value. -/
theorem digits_val {x : BigInt} (hx : x.Normal) :
    Nat.digits 65536 x.val = (List.range x.len).map fun i => (x.digits i).toNat := by
  rw [val, Digits.sum, ← ofDigits_range]
  refine Nat.digits_ofDigits 65536 (by decide) _ (fun d hd => ?_) fun hne => ?_
  · obtain ⟨i, -, rfl⟩ := List.mem_map.mp hd
    exact (x.digits i).toNat_lt
  · have hpos : x.len ≠ 0 := by
      rintro h
      rw [h] at hne
      exact hne rfl
    obtain ⟨n, hn⟩ := Nat.exists_eq_succ_of_ne_zero hpos
    have hlast : (x.digits n).toNat ≠ 0 := fun h => hx n hn (UInt16.toNat_inj.mp h)
    simpa [hn, List.getLast_map, List.range_succ] using hlast

/-- **Printing** writes the digits of the number. -/
theorem printdigits_eq {x : BigInt} (hx : x.Normal) :
    printdigits x = Challenge.printdigits x.val := by
  have hreverse : (List.range x.len).reverse = (List.range x.len).map (x.len - · - 1) := by
    rw [List.range_eq_range', List.reverse_range', ← List.range_eq_range']
    refine List.map_congr_left fun i _ => ?_
    omega
  rw [printdigits, Challenge.printdigits, digits_val hx, ← List.map_reverse, hreverse,
    List.flatMap_map, List.flatMap_map]
  simp only [worddigits_eq]

/-! ## The arithmetic -/

theorem val_parse_printdigits {x : BigInt} (hx : x.Normal) (d : Digits) {maxlen : Nat}
    (hlen : x.len ≤ maxlen) : (parse d maxlen (printdigits x)).val = x.val := by
  rw [val_parse, printdigits_eq hx]
  apply Challenge.parsedigits_printdigits
  exact Nat.lt_of_lt_of_le x.val_lt (Nat.pow_le_pow_right (by decide) hlen)

/-- **The operations** on normal numbers are those of the natural numbers, and their results are
normal. The sum and the difference may be written over the first operand. The text of a number is
read back into an array that the number fits in. -/
theorem arithmetic_val {x y : BigInt} (hx : x.Normal) (hy : y.Normal) (d : Digits) :
    ((add d x y).val = x.val + y.val ∧ (add d x y).Normal) ∧
    ((addSelf x y).val = x.val + y.val ∧ (addSelf x y).Normal) ∧
    (y.val ≤ x.val → (sub d x y).val = x.val - y.val ∧ (sub d x y).Normal ∧
      (subSelf x y).val = x.val - y.val ∧ (subSelf x y).Normal) ∧
    ((mul d x y).val = x.val * y.val ∧ (mul d x y).Normal) ∧
    (∀ n, (x.rshift n).val = x.val / 2 ^ n ∧ (x.rshift n).Normal) ∧
    ((x.lt y = true ↔ x.val < y.val) ∧ (x.beq y = true ↔ x.val = y.val)) ∧
    ∀ maxlen, x.len ≤ maxlen → (parse d maxlen (printdigits x)).val = x.val ∧
      (parse d maxlen (printdigits x)).Normal := by
  refine ⟨⟨val_add d x y, normal_add d hx hy⟩, ?_, fun hle => ?_, ⟨val_mul d x y, normal_mul d x y⟩,
    fun n => ⟨val_rshift x n, normal_rshift hx n⟩, ⟨lt_iff hx hy, beq_iff hx hy⟩,
    fun maxlen hlen => ⟨val_parse_printdigits hx d hlen, normal_shrink _⟩⟩
  · rw [addSelf_eq]
    exact ⟨val_add _ x y, normal_add _ hx hy⟩
  · have hlen := hy.len_le hle
    rw [subSelf_eq]
    exact ⟨val_sub hlen hle d, normal_sub d x y, val_sub hlen hle _, normal_sub _ x y⟩

/-- Two numbers of one digit each. -/
theorem arithmetic_val_one_digit :
    ((add (fun _ => 0) ⟨1, fun _ => 0xffff⟩ ⟨1, fun _ => 2⟩).val = 0x10001 ∧
      (sub (fun _ => 0) ⟨1, fun _ => 0xffff⟩ ⟨1, fun _ => 2⟩).val = 0xfffd) := by
  have hx : Normal ⟨1, fun _ => 0xffff⟩ := fun _ _ => (by decide : (0xffff : UInt16) ≠ 0)
  have hy : Normal ⟨1, fun _ => 2⟩ := fun _ _ => (by decide : (2 : UInt16) ≠ 0)
  obtain ⟨hadd, -, hsub, -⟩ := arithmetic_val hx hy fun _ => 0
  exact ⟨hadd.1, (hsub (by decide)).1⟩

end BigInt

end Zuckerserv

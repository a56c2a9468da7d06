import Zuckerserv.Lib.BinaryEuclid
import Zuckerserv.Shared.BigShift
import Zuckerserv.Shared.GField

/-!
# Inverses in the field

`gfield::invert` of `shared/crypto.cpp`: the binary algorithm of Euclid on arrays of
`GF_DIGITS + 1` digits. The shifts of a coefficient are put off as long as they can be.

* `addTo`, `subFrom`, `shiftTo` — the operations, with the capacity of the array and the assertion.
* `halve`, `round`, `invert` — the loops; there is no result where an array would overflow, an
  assertion would fail, or the rounds are not enough.
* `halveLoop_spec`, `round_spec` — one number is halved, and one round.
* `invert_spec` — every number of the field but zero is inverted.
-/

namespace Zuckerserv

namespace GField

open BigInt BinaryEuclid

/-! ## The code -/

/-- The digits below `n` of an array are written, if it has so many. -/
def store (n : Nat) (r : BigInt) : Option BigInt := if n ≤ GF_DIGITS + 1 then some r else none

/-- `x.add(y)`. -/
def addTo (x y : BigInt) : Option BigInt :=
  let r := BigInt.add x.digits x y
  store r.len r

/-- `sub(x, y)` into the array `d`, with `ASSERT(x >= y)`. -/
def subFrom (d : Digits) (x y : BigInt) : Option BigInt :=
  if x.lt y then none else store x.len (BigInt.sub d x y)

/-- `if(n) x.rshift(n)`. -/
def shiftTo (x : BigInt) (n : Nat) : Option BigInt :=
  if n ≠ 0 then store x.len (x.rshift n) else some x

/-- The loop `while(!u.hasbit(ushift))`; it ends with `ushift`, `ashift` and `A`. -/
def halveLoop (u : BigInt) : Nat → Nat → Nat → BigInt → Option (Nat × Nat × BigInt)
  | 0, _, _, _ => none
  | fuel + 1, ushift, ashift, A =>
    if u.hasbit ushift then some (ushift, ashift, A)
    else if A.hasbit ashift then
      (shiftTo A ashift).bind fun A => (addTo A P).bind fun A => halveLoop u fuel (ushift + 1) 1 A
    else halveLoop u fuel (ushift + 1) (ashift + 1) A

/-- The loop, and the shifts behind it. -/
def halve (u A : BigInt) : Option (BigInt × BigInt) :=
  (halveLoop u (u.len * 16) 0 0 A).bind fun (ushift, ashift, A) =>
    (shiftTo u ushift).bind fun u => (shiftTo A ashift).map fun A => (u, A)

/-- `if(A < C) A.add(P); A.sub(C);`. -/
def subCoefficient (A C : BigInt) : Option BigInt :=
  (if A.lt C then addTo A P else some A).bind fun A => subFrom A.digits A C

/-- The variables of `invert`. -/
structure Numbers where
  u : BigInt
  v : BigInt
  A : BigInt
  C : BigInt

/-- The body of `while(!u.iszero())`. -/
def round (s : Numbers) : Option Numbers :=
  (halve s.u s.A).bind fun (u, A) => (halve s.v s.C).bind fun (v, C) =>
    if !u.lt v then
      (subFrom u.digits u v).bind fun u => (subCoefficient A C).map fun A => ⟨u, v, A, C⟩
    else
      (subFrom v.digits v u).bind fun v => (subCoefficient C A).map fun C => ⟨u, v, A, C⟩

/-- `while(!u.iszero())`. -/
def rounds : Nat → Numbers → Option Numbers
  | 0, _ => none
  | fuel + 1, s => if s.u.len = 0 then some s else (round s).bind (rounds fuel)

/-- `bigint(digit n)`. -/
def ofDigit (n : UInt16) : BigInt := ⟨if n = 0 then 0 else 1, fun _ => n⟩

/-- The end of `invert`: `d` is the array of `*this`. -/
def settle (d : Digits) (C : BigInt) : Option BigInt :=
  if !C.lt P then subFrom d C P else store C.len ⟨C.len, d.memcpy 0 C.digits 0 C.len⟩

/-- `bool invert(const gfield &x)`, with `ASSERT(*this < P)`; `y` is what `*this` was before. -/
def invert (fuel : Nat) (y x : BigInt) : Option (Bool × BigInt) :=
  if x.len = 0 then some (false, y)
  else
    (rounds fuel ⟨x, P, ofDigit 1, ofDigit 0⟩).bind fun s => (settle y.digits s.C).bind fun y =>
      if y.lt P then some (true, y) else none

/-! ## The operations -/

section Operations

variable {x y : BigInt}

theorem odd_p192 : p192 % 2 = 1 := by norm_num [p192]

/-- What is below twice the prime fits in the array. -/
theorem len_le (hx : x.Normal) (h : x.val < 2 * p192) : x.len ≤ GF_DIGITS + 1 := by
  by_contra hlen
  have hle := hx.lt_len_iff.mp (Nat.not_le.mp hlen)
  have hbound : 2 * p192 ≤ 65536 ^ (GF_DIGITS + 1) := by norm_num [p192, GF_DIGITS]
  omega

theorem store_eq {n : Nat} (h : n ≤ GF_DIGITS + 1) : store n x = some x := if_pos h

theorem addTo_spec (hx : x.Normal) (hy : y.Normal) (h : x.val + y.val < 2 * p192) :
    ∃ r, addTo x y = some r ∧ r.Normal ∧ r.val = x.val + y.val := by
  have hval := val_add x.digits x y
  have hnormal := normal_add x.digits hx hy
  exact ⟨_, store_eq (len_le hnormal (hval ▸ h)), hnormal, hval⟩

theorem subFrom_spec (d : Digits) (hx : x.Normal) (hy : y.Normal) (hle : y.val ≤ x.val)
    (h : x.val < 2 * p192) :
    ∃ r, subFrom d x y = some r ∧ r.Normal ∧ r.val = x.val - y.val := by
  have hlt : ¬ x.lt y = true := by
    rw [lt_iff hx hy]
    exact Nat.not_lt.mpr hle
  refine ⟨BigInt.sub d x y, ?_, normal_sub d x y, val_sub (hy.len_le hle) hle d⟩
  rw [subFrom, if_neg hlt, store_eq (len_le hx h)]

theorem shiftTo_spec (hx : x.Normal) (h : x.val < 2 * p192) (n : Nat) :
    ∃ r, shiftTo x n = some r ∧ r.Normal ∧ r.val = x.val / 2 ^ n := by
  rw [shiftTo]
  split
  · exact ⟨_, store_eq (len_le hx h), normal_rshift hx n, val_rshift x n⟩
  · next hn =>
    refine ⟨x, rfl, hx, ?_⟩
    rw [not_not.mp hn, pow_zero, Nat.div_one]

end Operations

/-! ## Halving -/

section Halving

variable {x : Nat} {u A : BigInt} {ushift ashift : Nat}

/-- What holds in the loop: the coefficient and the number are those that are left when the shifts
have been done. -/
structure HalveInv (x : Nat) (u : BigInt) (ushift ashift : Nat) (A : BigInt) : Prop where
  dvd : 2 ^ ushift ∣ u.val
  normal : A.Normal
  lt : A.val < 2 * p192
  coefficient : 2 ^ ashift ∣ A.val
  multiple : Multiple p192 x (A.val / 2 ^ ashift) (u.val / 2 ^ ushift)

/-- A power of two that divides a number leaves an even one: the next power does, too. -/
theorem dvd_succ {n k : Nat} (h : 2 ^ k ∣ n) (heven : n / 2 ^ k % 2 = 0) : 2 ^ (k + 1) ∣ n := by
  rw [pow_succ]
  exact (Nat.dvd_div_iff_mul_dvd h).mp (Nat.dvd_of_mod_eq_zero heven)

theorem div_succ (n k : Nat) : n / 2 ^ (k + 1) = n / 2 ^ k / 2 := by
  rw [pow_succ, Nat.div_div_eq_div_mul]

theorem shift_lt (hu : 0 < u.val) (h : 2 ^ ushift ∣ u.val) : ushift < u.len * 16 := by
  by_contra hge
  have hle := Nat.le_of_dvd hu h
  have hzero := u.val_div_eq_zero (Nat.not_lt.mp hge)
  rw [Nat.div_eq_zero_iff] at hzero
  omega

/-- A coefficient that is odd: the shifts are done, and the prime is added. -/
theorem HalveInv.odd (h : HalveInv x u ushift ashift A) (heven : u.val / 2 ^ ushift % 2 = 0)
    (hA : A.val / 2 ^ ashift % 2 = 1) :
    ∃ B C, shiftTo A ashift = some B ∧ addTo B P = some C ∧ HalveInv x u (ushift + 1) 1 C := by
  have hhalf := h.multiple.half odd_p192 heven
  have hlt := h.multiple.lt
  obtain ⟨B, hB, hBnormal, hBval⟩ := shiftTo_spec h.normal h.lt ashift
  obtain ⟨C, hC, hCnormal, hCval⟩ :=
    addTo_spec hBnormal normal_P (by rw [hBval, val_P]; omega)
  rw [hBval, val_P] at hCval
  rw [BinaryEuclid.half, if_neg (by omega), ← div_succ] at hhalf
  have hodd := odd_p192
  refine ⟨B, C, hB, hC, dvd_succ h.dvd heven, hCnormal, by omega, ?_, ?_⟩
  · rw [hCval, pow_one]
    exact Nat.dvd_of_mod_eq_zero (by omega)
  · rw [hCval, pow_one]
    exact hhalf

/-- A coefficient that is even: the shift is put off. -/
theorem HalveInv.even (h : HalveInv x u ushift ashift A) (heven : u.val / 2 ^ ushift % 2 = 0)
    (hA : A.val / 2 ^ ashift % 2 = 0) : HalveInv x u (ushift + 1) (ashift + 1) A := by
  have hhalf := h.multiple.half odd_p192 heven
  rw [BinaryEuclid.half, if_pos hA, ← div_succ, ← div_succ] at hhalf
  exact ⟨dvd_succ h.dvd heven, h.normal, h.lt, dvd_succ h.coefficient hA, hhalf⟩

/-- The loop ends at the lowest bit, and no array overflows. -/
theorem halveLoop_spec (hu : 0 < u.val) (h : HalveInv x u ushift ashift A) {fuel : Nat}
    (hfuel : u.len * 16 ≤ ushift + fuel) :
    ∃ ushift' ashift' A', halveLoop u fuel ushift ashift A = some (ushift', ashift', A') ∧
      HalveInv x u ushift' ashift' A' := by
  have hlt := shift_lt hu h.dvd
  induction fuel generalizing ushift ashift A with
  | zero => omega
  | succ fuel ih =>
    rw [halveLoop]
    by_cases hbit : u.hasbit ushift = true
    · rw [if_pos hbit]
      exact ⟨ushift, ashift, A, rfl, h⟩
    · have heven : u.val / 2 ^ ushift % 2 = 0 := by
        rw [hasbit_eq] at hbit
        omega
      rw [if_neg hbit]
      by_cases hA : A.hasbit ashift = true
      · obtain ⟨B, C, hB, hC, hinv⟩ := h.odd heven ((hasbit_eq A ashift).mp hA)
        rw [if_pos hA, hB, Option.bind_some, hC, Option.bind_some]
        exact ih hinv (by omega) (shift_lt hu hinv.dvd)
      · have hinv := h.even heven (by rw [hasbit_eq] at hA; omega)
        rw [if_neg hA]
        exact ih hinv (by omega) (shift_lt hu hinv.dvd)

/-- A number is halved while it is even, with its coefficient. -/
theorem halve_spec (hu : 0 < u.val) (hnormal : u.Normal) (hlt : u.val < 2 * p192)
    (hA : A.Normal) (h : Multiple p192 x A.val u.val) :
    ∃ u' A', halve u A = some (u', A') ∧ u'.Normal ∧ A'.Normal ∧
      Multiple p192 x A'.val u'.val ∧ u'.val ∣ u.val := by
  have hstart : HalveInv x u 0 0 A := by
    have hAlt := h.lt
    refine ⟨Nat.one_dvd _, hA, by omega, Nat.one_dvd _, ?_⟩
    rw [pow_zero, Nat.div_one, Nat.div_one]
    exact h
  obtain ⟨ushift, ashift, B, hloop, hinv⟩ :=
    halveLoop_spec hu hstart (Nat.zero_add (u.len * 16)).ge
  obtain ⟨u', hu', hu'normal, hu'val⟩ := shiftTo_spec hnormal hlt ushift
  obtain ⟨A', hA', hA'normal, hA'val⟩ := shiftTo_spec hinv.normal hinv.lt ashift
  refine ⟨u', A', ?_, hu'normal, hA'normal, ?_, ?_⟩
  · rw [halve, hloop, Option.bind_some]
    dsimp only
    rw [hu', Option.bind_some, hA', Option.map_some]
  · rw [hA'val, hu'val]
    exact hinv.multiple
  · rw [hu'val]
    exact Nat.div_dvd_of_dvd hinv.dvd

end Halving

/-! ## The rounds -/

/-- What holds at the head of the loop. -/
structure Inverting (x : Nat) (s : Numbers) : Prop where
  u : s.u.Normal
  v : s.v.Normal
  A : s.A.Normal
  C : s.C.Normal
  pair : Pair p192 x s.u.val s.v.val s.A.val s.C.val
  bound : s.u.val + s.v.val < 2 * p192

theorem subCoefficient_spec {A C : BigInt} (hA : A.Normal) (hC : C.Normal) (hAlt : A.val < p192)
    (hClt : C.val < p192) :
    ∃ r, subCoefficient A C = some r ∧ r.Normal ∧ r.val = diff p192 A.val C.val := by
  rw [subCoefficient, diff]
  by_cases hlt : A.val < C.val
  · obtain ⟨B, hB, hBnormal, hBval⟩ := addTo_spec hA normal_P (by rw [val_P]; omega)
    rw [val_P] at hBval
    obtain ⟨r, hr, hrnormal, hrval⟩ := subFrom_spec B.digits hBnormal hC (by omega) (by omega)
    refine ⟨r, ?_, hrnormal, ?_⟩
    · rw [if_pos ((lt_iff hA hC).mpr hlt), hB, Option.bind_some, hr]
    · rw [if_pos hlt, hrval, hBval]
  · obtain ⟨r, hr, hrnormal, hrval⟩ := subFrom_spec A.digits hA hC (by omega) (by omega)
    refine ⟨r, ?_, hrnormal, ?_⟩
    · rw [if_neg (by rwa [lt_iff hA hC]), Option.bind_some, hr]
    · rw [if_neg hlt, hrval]

/-- One round keeps what holds, and the sum of the numbers goes down. -/
theorem round_spec {x : Nat} {s : Numbers} (h : Inverting x s) (hu : 0 < s.u.val) :
    ∃ s', round s = some s' ∧ Inverting x s' ∧
      s'.u.val + s'.v.val < s.u.val + s.v.val := by
  have hbound := h.bound
  have hv := h.pair.pos
  obtain ⟨u, A, hhalve, hunormal, hAnormal, hleft, hudvd⟩ :=
    halve_spec hu h.u (by omega) h.A h.pair.left
  obtain ⟨v, C, hhalve', hvnormal, hCnormal, hright, hvdvd⟩ :=
    halve_spec hv h.v (by omega) h.C h.pair.right
  have hule := Nat.le_of_dvd hu hudvd
  have hvle := Nat.le_of_dvd hv hvdvd
  have hupos := Nat.pos_of_dvd_of_pos hudvd hu
  have hvpos := Nat.pos_of_dvd_of_pos hvdvd hv
  have hpair : Pair p192 x u.val v.val A.val C.val :=
    ⟨hleft, hright, (h.pair.coprime.coprime_dvd_left hudvd).coprime_dvd_right hvdvd, hvpos⟩
  rw [round, hhalve, Option.bind_some]
  dsimp only
  rw [hhalve', Option.bind_some]
  dsimp only
  by_cases hlt : u.val < v.val
  · obtain ⟨v', hv', hv'normal, hv'val⟩ := subFrom_spec v.digits hvnormal hunormal hlt.le (by omega)
    obtain ⟨C', hC', hC'normal, hC'val⟩ := subCoefficient_spec hCnormal hAnormal hright.lt hleft.lt
    refine ⟨⟨u, v', A, C'⟩, ?_, ⟨hunormal, hv'normal, hAnormal, hC'normal, ?_, ?_⟩, ?_⟩
    · rw [(lt_iff hunormal hvnormal).mpr hlt, if_neg (by decide), hv', Option.bind_some, hC',
        Option.map_some]
    · dsimp only
      rw [hv'val, hC'val]
      exact hpair.sub_right hlt
    all_goals
      dsimp only
      omega
  · obtain ⟨u', hu', hu'normal, hu'val⟩ :=
      subFrom_spec u.digits hunormal hvnormal (Nat.not_lt.mp hlt) (by omega)
    obtain ⟨A', hA', hA'normal, hA'val⟩ := subCoefficient_spec hAnormal hCnormal hleft.lt hright.lt
    have hfalse : u.lt v = false := by
      rwa [← Bool.not_eq_true, lt_iff hunormal hvnormal]
    refine ⟨⟨u', v, A', C⟩, ?_, ⟨hu'normal, hvnormal, hA'normal, hCnormal, ?_, ?_⟩, ?_⟩
    · rw [hfalse, if_pos (by decide), hu', Option.bind_some, hA', Option.map_some]
    · dsimp only
      rw [hu'val, hA'val]
      exact hpair.sub_left (Nat.not_lt.mp hlt)
    all_goals
      dsimp only
      omega

/-- The loop ends when the first number is zero. -/
theorem rounds_spec {x : Nat} {s : Numbers} (h : Inverting x s) {fuel : Nat}
    (hfuel : s.u.val + s.v.val < fuel) :
    ∃ s', rounds fuel s = some s' ∧ Inverting x s' ∧ s'.u.val = 0 := by
  induction fuel generalizing s with
  | zero => omega
  | succ fuel ih =>
    rw [rounds]
    by_cases hzero : s.u.len = 0
    · refine ⟨s, if_pos hzero, h, ?_⟩
      rw [val, hzero]
      rfl
    · have hpos : 0 < s.u.val := h.u.pow_le (Nat.pos_of_ne_zero hzero)
      obtain ⟨s', hround, hinv, hless⟩ := round_spec h hpos
      obtain ⟨t, ht, htinv, htzero⟩ := ih hinv (by omega)
      refine ⟨t, ?_, htinv, htzero⟩
      rw [if_neg hzero, hround, Option.bind_some, ht]

theorem normal_ofDigit (n : UInt16) : (ofDigit n).Normal := by
  intro k hk
  rw [ofDigit] at hk ⊢
  dsimp only at hk ⊢
  split at hk
  · exact absurd hk (Nat.succ_ne_zero k).symm
  · assumption

/-- The result is copied; it is below the prime. -/
theorem settle_spec (d : Digits) {C : BigInt} (hC : C.Normal) (hlt : C.val < p192) :
    ∃ y, settle d C = some y ∧ y.Normal ∧ y.val = C.val := by
  have htrue : C.lt P = true := by
    rw [lt_iff hC normal_P, val_P]
    exact hlt
  have hval : (⟨C.len, d.memcpy 0 C.digits 0 C.len⟩ : BigInt).val = C.val := by
    refine Digits.sum_congr fun i hi => ?_
    change (if 0 ≤ i ∧ i < 0 + C.len then C.digits (0 + (i - 0)) else d i) = C.digits i
    rw [if_pos (by dsimp only at hi; omega), Nat.zero_add, Nat.sub_zero]
  refine ⟨_, ?_, normal_of_pow_le fun n hn => ?_, hval⟩
  · rw [settle, htrue, if_neg (by decide), store_eq (len_le hC (by omega))]
  · rw [hval]
    exact hC.pow_le (by dsimp only at hn; omega)

/-- **Inverses**: a number of the field that is not zero is inverted, within the capacity of the
arrays and with all assertions; the rounds end. -/
theorem invert_spec (y x : BigInt) (hx : x.Normal) (hpos : 0 < x.val) (hlt : x.val < p192)
    (fuel : Nat) (hfuel : x.val + p192 < fuel) :
    ∃ r, invert fuel y x = some (true, r) ∧ r.Normal ∧ 0 < r.val ∧ r.val < p192 ∧
      x.val * r.val ≡ 1 [MOD p192] := by
  have hstart : Inverting x.val ⟨x, P, ofDigit 1, ofDigit 0⟩ := by
    refine ⟨hx, normal_P, normal_ofDigit 1, normal_ofDigit 0, ?_, ?_⟩
    · dsimp only
      rw [val_P]
      exact Pair.start prime_p192 hpos hlt
    · dsimp only
      rw [val_P]
      omega
  have hlen : x.len ≠ 0 := by
    intro hzero
    rw [val, hzero] at hpos
    exact Nat.lt_irrefl 0 hpos
  have hrounds : x.val + P.val < fuel := by rwa [val_P]
  obtain ⟨s, hs, hinv, hzero⟩ := rounds_spec hstart hrounds
  have hpair := hinv.pair
  rw [hzero] at hpair
  obtain ⟨hrpos, hrlt, hone⟩ := hpair.inverse prime_p192.one_lt
  obtain ⟨r, hr, hrnormal, hrval⟩ := settle_spec y.digits hinv.C hrlt
  have htrue : r.lt P = true := by
    rw [lt_iff hrnormal normal_P, val_P, hrval]
    exact hrlt
  refine ⟨r, ?_, hrnormal, hrval ▸ hrpos, hrval ▸ hrlt, ?_⟩
  · rw [invert, if_neg hlen, hs, Option.bind_some, hr, Option.bind_some, if_pos htrue]
  · rw [hrval, Nat.mul_comm]
    exact hone

theorem normal_high (n : UInt16) : (high n).Normal := fun k hk => by
  rw [show k = 11 from (Nat.succ_injective hk).symm]
  exact (by decide : (0x8000 : UInt16) ≠ 0)

/-- The inverse of a number of 192 bits. -/
theorem invert_high : ∃ r, invert (2 * p192) (ofDigit 0) (high 3) = some (true, r) ∧
    r.Normal ∧ 0 < r.val ∧ r.val < p192 ∧ (high 3).val * r.val ≡ 1 [MOD p192] :=
  invert_spec (ofDigit 0) (high 3) (normal_high 3) (by decide +kernel) (by decide +kernel) _
    (by decide +kernel)

end GField

end Zuckerserv

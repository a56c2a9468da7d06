import Zuckerserv.Lib.Word32
import Zuckerserv.Shared.DataBuf

/-!
# The two integer formats of the protocol

`putint`/`getint` and `putuint`/`getuint` of `shared/tools.cpp`, on the 32-bit
`int` and the 8-bit `uchar` of the source.

* `putint_`, `putuint_` — the writers, generic in what they write to, as the
  templates are.
* `getint`, `getuint` — the readers.
* `getint_of_rest`, `getuint_of_rest` — the readers undo the writers: faced with
  the bytes of a value they return it and skip exactly those bytes.
* `overread_getint`, `overread_getuint` — on arbitrary bytes the overread flag
  tells whether the value at the cursor is cut off by the end of the buffer.
-/

namespace Zuckerserv

open Word32

/-! ## The writers -/

section Writers

variable {σ : Type} (put : σ → UInt8 → σ)

/-- `putint_`: one byte, or an escape byte and two or four more. -/
def putint_ (p : σ) (n : Int32) : σ :=
  if n < 128 ∧ n > -127 then put p (toUchar n)
  else if n < 0x8000 ∧ n ≥ -0x8000 then
    put (put (put p 0x80) (toUchar n)) (toUchar (n >>> 8))
  else
    put (put (put (put (put p 0x81) (toUchar n)) (toUchar (n >>> 8))) (toUchar (n >>> 16)))
      (toUchar (n >>> 24))

/-- `putuint_`: groups of seven bits; the fourth byte holds the last eight. -/
def putuint_ (p : σ) (n : Int32) : σ :=
  if n < 0 ∨ n ≥ (1 : Int32) <<< 21 then
    let p := put p (toUchar ((0x80 : Int32) ||| (n &&& 0x7F)))
    let p := put p (toUchar ((0x80 : Int32) ||| ((n >>> 7) &&& 0x7F)))
    let p := put p (toUchar ((0x80 : Int32) ||| ((n >>> 14) &&& 0x7F)))
    put p (toUchar (n >>> 21))
  else if n < (1 : Int32) <<< 7 then put p (toUchar n)
  else if n < (1 : Int32) <<< 14 then
    let p := put p (toUchar ((0x80 : Int32) ||| (n &&& 0x7F)))
    put p (toUchar (n >>> 7))
  else
    let p := put p (toUchar ((0x80 : Int32) ||| (n &&& 0x7F)))
    let p := put p (toUchar ((0x80 : Int32) ||| ((n >>> 7) &&& 0x7F)))
    put p (toUchar (n >>> 14))

end Writers

/-- `v.add(b)` on a `vector<uchar>`. -/
def vecAdd (v : List UInt8) (b : UInt8) : List UInt8 := v ++ [b]

/-- `putint(vector<uchar> &p, int n)` on an empty vector: the bytes of `n`. -/
def intBytes (n : Int32) : List UInt8 := putint_ vecAdd [] n

/-- `putuint(vector<uchar> &p, int n)` on an empty vector: the bytes of `n`. -/
def uintBytes (n : Int32) : List UInt8 := putuint_ vecAdd [] n

/-- `putint(ucharbuf &p, int n)`. -/
def putint (p : DataBuf) (n : Int32) : DataBuf := putint_ DataBuf.put p n

/-- `putuint(ucharbuf &p, int n)`. -/
def putuint (p : DataBuf) (n : Int32) : DataBuf := putuint_ DataBuf.put p n

theorem putint_eq_foldl {σ : Type} (put : σ → UInt8 → σ) (p : σ) (n : Int32) :
    putint_ put p n = (intBytes n).foldl put p := by
  unfold intBytes putint_
  split_ifs <;> rfl

theorem putuint_eq_foldl {σ : Type} (put : σ → UInt8 → σ) (p : σ) (n : Int32) :
    putuint_ put p n = (uintBytes n).foldl put p := by
  unfold uintBytes putuint_
  split_ifs <;> rfl

theorem putint_eq_putVals {p : DataBuf} {n : Int32} (h : (intBytes n).length ≤ p.remaining) :
    putint p n = p.putVals (intBytes n) := by
  rw [putint, putint_eq_foldl, DataBuf.foldl_put h]

theorem putuint_eq_putVals {p : DataBuf} {n : Int32} (h : (uintBytes n).length ≤ p.remaining) :
    putuint p n = p.putVals (uintBytes n) := by
  rw [putuint, putuint_eq_foldl, DataBuf.foldl_put h]

theorem length_intBytes_pos (n : Int32) : 0 < (intBytes n).length := by
  unfold intBytes putint_
  split_ifs <;> simp [vecAdd]

theorem length_intBytes_le (n : Int32) : (intBytes n).length ≤ 5 := by
  unfold intBytes putint_
  split_ifs <;> simp [vecAdd]

theorem length_uintBytes_le (n : Int32) : (uintBytes n).length ≤ 4 := by
  unfold uintBytes putuint_
  split_ifs <;> simp [vecAdd]

/-! ## The readers -/

/-- `getint`. -/
def getint (p : DataBuf) : Int32 × DataBuf :=
  let (b, p) := p.get
  let c := ofChar b
  if c = -128 then
    let (b₀, p) := p.get
    let (b₁, p) := p.get
    (ofUchar b₀ ||| (ofChar b₁ <<< 8), p)
  else if c = -127 then
    let (b₀, p) := p.get
    let (b₁, p) := p.get
    let (b₂, p) := p.get
    let (b₃, p) := p.get
    (ofUchar b₀ ||| (ofUchar b₁ <<< 8) ||| (ofUchar b₂ <<< 16) ||| (ofUchar b₃ <<< 24), p)
  else (c, p)

/-- One line of `getuint`: `if(n & (1<<k)) n += (p.get() << k) - (1<<k);`. -/
def getGroup (k : Int32) : Int32 × DataBuf → Int32 × DataBuf
  | (n, p) =>
    if n &&& ((1 : Int32) <<< k) ≠ 0 then
      let (b, p) := p.get
      (n + ((ofUchar b <<< k) - ((1 : Int32) <<< k)), p)
    else (n, p)

/-- `getuint`. -/
def getuint (p : DataBuf) : Int32 × DataBuf :=
  let (b, p) := p.get
  let n := ofUchar b
  if n &&& 0x80 ≠ 0 then
    let (b, p) := p.get
    let n := n + ((ofUchar b <<< 7) - 0x80)
    let (n, p) := getGroup 14 (n, p)
    let (n, p) := getGroup 21 (n, p)
    if n &&& ((1 : Int32) <<< 28) ≠ 0 then (n ||| ((-1 : Int32) <<< 28), p) else (n, p)
  else (n, p)

/-! ### What the readers do on any bytes -/

/-- The bytes `getint` asks for when it meets `bs`. -/
def intSize (bs : List UInt8) : Nat :=
  if bs.getD 0 0 = 0x80 then 3 else if bs.getD 0 0 = 0x81 then 5 else 1

/-- The value `getint` returns when it meets `bs`; bytes that are missing read as `0`. -/
def intVal (bs : List UInt8) : Int32 :=
  if bs.getD 0 0 = 0x80 then ofUchar (bs.getD 1 0) ||| (ofChar (bs.getD 2 0) <<< 8)
  else if bs.getD 0 0 = 0x81 then
    ofUchar (bs.getD 1 0) ||| (ofUchar (bs.getD 2 0) <<< 8) ||| (ofUchar (bs.getD 3 0) <<< 16) |||
      (ofUchar (bs.getD 4 0) <<< 24)
  else ofChar (bs.getD 0 0)

/-- The bytes `getuint` asks for when it meets `bs`. -/
def uintSize (bs : List UInt8) : Nat :=
  if (bs.getD 0 0).toNat < 128 then 1
  else if (bs.getD 1 0).toNat < 128 then 2
  else if (bs.getD 2 0).toNat < 128 then 3
  else 4

/-- The number in the seven-bit groups `getuint` finds in `bs`, before its sign. -/
def uintNat (bs : List UInt8) : Nat :=
  let b (i : Nat) := (bs.getD i 0).toNat
  if b 0 < 128 then b 0
  else if b 1 < 128 then b 0 - 128 + b 1 * 2 ^ 7
  else if b 2 < 128 then b 0 - 128 + (b 1 - 128) * 2 ^ 7 + b 2 * 2 ^ 14
  else b 0 - 128 + (b 1 - 128) * 2 ^ 7 + (b 2 - 128) * 2 ^ 14 + b 3 * 2 ^ 21

theorem getint_eq (p : DataBuf) : getint p = (intVal p.rest, p.reads (intSize p.rest)) := by
  have h80 : ofChar (p.rest.getD 0 0) = -128 ↔ p.rest.getD 0 0 = 0x80 :=
    ofChar_inj (b := 0x80)
  have h81 : ofChar (p.rest.getD 0 0) = -127 ↔ p.rest.getD 0 0 = 0x81 :=
    ofChar_inj (b := 0x81)
  simp only [getint, DataBuf.get_eq, DataBuf.rest_reads, DataBuf.reads_reads, h80, h81, intVal,
    intSize]
  split_ifs <;> simp

section Group

/-! A group at bit `j`, for the shift counts `k` of the source: the two hypotheses say that
`k` is `j`. -/

variable {k : Int32} {j : Nat} (hbit : ((1 : Int32) <<< k).toBitVec = BitVec.twoPow 32 j)
  (hshl : ∀ m : Int32, unat (m <<< k) = unat m * 2 ^ j % 2 ^ 32)
include hbit

theorem getGroup_of_lt {n : Int32} (p : DataBuf) (hj : j < 32) (hn : unat n < 2 ^ j) :
    getGroup k (n, p) = (n, p) := by
  have hflag : ¬ n &&& ((1 : Int32) <<< k) ≠ 0 := by
    rw [and_bit_ne_zero hbit hj, Nat.div_eq_of_lt hn]
    decide
  rw [getGroup, if_neg hflag]

include hshl

theorem getGroup_of_le {n : Int32} (p : DataBuf) (hj : j ≤ 24) (hn : 2 ^ j ≤ unat n)
    (hn' : unat n < 2 ^ (j + 1)) :
    ∃ m, getGroup k (n, p) = (m, p.reads 1) ∧
      unat m = unat n - 2 ^ j + (p.rest.getD 0 0).toNat * 2 ^ j := by
  have hone : unat ((1 : Int32) <<< k) = 2 ^ j := by
    rw [unat, hbit, BitVec.toNat_twoPow_of_lt (by omega)]
  have hflag : n &&& ((1 : Int32) <<< k) ≠ 0 := by
    have hdiv : unat n / 2 ^ j = 1 :=
      Nat.div_eq_of_lt_le (by omega) (by rw [pow_succ] at hn'; omega)
    rw [and_bit_ne_zero hbit (by omega), hdiv]
  rw [getGroup, if_pos hflag, DataBuf.get_eq]
  refine ⟨_, rfl, ?_⟩
  have hb := (p.rest.getD 0 0).toNat_lt
  have hpow : 2 ^ j ≤ 2 ^ 24 := Nat.pow_le_pow_right (by norm_num) hj
  have hmul : (p.rest.getD 0 0).toNat * 2 ^ j ≤ 255 * 2 ^ j := Nat.mul_le_mul_right _ (by omega)
  rw [unat_add, unat_sub, hone, hshl, unat_ofUchar]
  rw [pow_succ] at hn'
  omega

end Group

theorem getuint_of_lt {p : DataBuf} (h : (p.rest.getD 0 0).toNat < 128) :
    getuint p = (ofUchar (p.rest.getD 0 0), p.reads 1) := by
  have hflag : ¬ ofUchar (p.rest.getD 0 0) &&& 0x80 ≠ 0 := by
    rw [and_bit_ne_zero (k := 7) (by decide) (by decide), unat_ofUchar]
    omega
  simp only [getuint, DataBuf.get_eq]
  rw [if_neg hflag]

/-- When the first byte has its flag, `getuint` adds three groups and fills in the sign. -/
theorem getuint_of_le {p : DataBuf} (h : 128 ≤ (p.rest.getD 0 0).toNat) :
    getuint p =
      (let s := getGroup 21 (getGroup 14 (getGroup 7 (ofUchar (p.rest.getD 0 0), p.reads 1)))
       if s.1 &&& ((1 : Int32) <<< 28) ≠ 0 then (s.1 ||| ((-1 : Int32) <<< 28), s.2) else s) := by
  have hb := (p.rest.getD 0 0).toNat_lt
  have hflag : ofUchar (p.rest.getD 0 0) &&& 0x80 ≠ 0 := by
    rw [and_bit_ne_zero (k := 7) (by decide) (by decide), unat_ofUchar]
    omega
  have hfirst : getGroup 7 (ofUchar (p.rest.getD 0 0), p.reads 1) =
      (ofUchar (p.rest.getD 0 0) + ((ofUchar ((p.reads 1).rest.getD 0 0) <<< 7) - 0x80),
        (p.reads 1).reads 1) := by
    rw [getGroup, if_pos (show _ &&& ((1 : Int32) <<< 7) ≠ 0 from hflag), DataBuf.get_eq]
    rfl
  simp only [getuint, DataBuf.get_eq]
  rw [if_pos hflag, hfirst]

/-- The three groups after a first byte that has its flag. -/
theorem getGroups {p : DataBuf} (h : 128 ≤ (p.rest.getD 0 0).toNat) :
    ∃ m, getGroup 21 (getGroup 14 (getGroup 7 (ofUchar (p.rest.getD 0 0), p.reads 1))) =
      (m, p.reads (uintSize p.rest)) ∧ unat m = uintNat p.rest := by
  have hb (i : Nat) : (p.rest.getD i 0).toNat < 256 := UInt8.toNat_lt _
  have hb0 := hb 0
  have hb1 := hb 1
  have hb2 := hb 2
  have hu := unat_ofUchar (p.rest.getD 0 0)
  have hget (i : Nat) : (p.rest.drop i).getD 0 0 = p.rest.getD i 0 := by simp
  have c0 : ¬ (p.rest.getD 0 0).toNat < 128 := by omega
  simp only [uintNat, uintSize, if_neg c0]
  obtain ⟨m7, e7, v7⟩ := getGroup_of_le (k := 7) (j := 7) (by decide) unat_shl7
    (n := ofUchar (p.rest.getD 0 0)) (p.reads 1) (by norm_num) (by omega) (by omega)
  rw [DataBuf.rest_reads, hget, hu] at v7
  rw [e7, DataBuf.reads_reads]
  by_cases c1 : (p.rest.getD 1 0).toNat < 128
  · rw [getGroup_of_lt (k := 14) (j := 14) (by decide) _ (by norm_num) (by omega),
      getGroup_of_lt (k := 21) (j := 21) (by decide) _ (by norm_num) (by omega),
      if_pos c1, if_pos c1]
    exact ⟨m7, rfl, v7⟩
  obtain ⟨m14, e14, v14⟩ := getGroup_of_le (k := 14) (j := 14) (by decide) unat_shl14
    (n := m7) (p.reads 2) (by norm_num) (by omega) (by omega)
  rw [DataBuf.rest_reads, hget] at v14
  rw [e14, DataBuf.reads_reads, if_neg c1, if_neg c1]
  by_cases c2 : (p.rest.getD 2 0).toNat < 128
  · rw [getGroup_of_lt (k := 21) (j := 21) (by decide) _ (by norm_num) (by omega),
      if_pos c2, if_pos c2]
    exact ⟨m14, rfl, by omega⟩
  obtain ⟨m21, e21, v21⟩ := getGroup_of_le (k := 21) (j := 21) (by decide) unat_shl21
    (n := m14) (p.reads 3) (by norm_num) (by omega) (by omega)
  rw [DataBuf.rest_reads, hget] at v21
  rw [e21, DataBuf.reads_reads, if_neg c2, if_neg c2]
  exact ⟨m21, rfl, by omega⟩

theorem uintNat_lt (bs : List UInt8) : uintNat bs < 2 ^ 29 := by
  have hb (i : Nat) : (bs.getD i 0).toNat < 256 := UInt8.toNat_lt _
  have hb0 := hb 0
  have hb1 := hb 1
  have hb2 := hb 2
  have hb3 := hb 3
  simp only [uintNat]
  split_ifs <;> omega

/-- The unsigned value `getuint` leaves, and how many bytes it read. -/
theorem getuint_spec (p : DataBuf) :
    unat (getuint p).1 =
        (if uintNat p.rest < 2 ^ 28 then uintNat p.rest else uintNat p.rest + 7 * 2 ^ 29) ∧
      (getuint p).2 = p.reads (uintSize p.rest) := by
  have hlt := uintNat_lt p.rest
  by_cases c0 : (p.rest.getD 0 0).toNat < 128
  · rw [getuint_of_lt c0]
    simp only [uintNat, uintSize]
    rw [if_pos c0, if_pos c0, unat_ofUchar]
    exact ⟨by rw [if_pos (by omega)], rfl⟩
  · obtain ⟨m, hm, hval⟩ := getGroups (p := p) (by omega)
    have hflag : m &&& ((1 : Int32) <<< 28) ≠ 0 ↔ ¬ uintNat p.rest < 2 ^ 28 := by
      rw [and_bit_ne_zero (k := 28) (by decide) (by decide), hval]
      omega
    rw [getuint_of_le (by omega), hm]
    by_cases hs : uintNat p.rest < 2 ^ 28
    · rw [if_neg (by rw [hflag]; exact not_not.mpr hs), if_pos hs]
      exact ⟨hval, rfl⟩
    · have hfill : unat (m ||| ((-1 : Int32) <<< 28)) = unat m + 7 * 2 ^ 29 :=
        unat_or_high (by omega)
      rw [if_pos (hflag.mpr hs), if_neg hs]
      exact ⟨by rw [hfill, hval], rfl⟩

/-! ### The readers undo the writers -/

theorem intVal_append (n : Int32) (bs : List UInt8) :
    intVal (intBytes n ++ bs) = n ∧ intSize (intBytes n ++ bs) = (intBytes n).length := by
  unfold intBytes putint_ vecAdd
  split_ifs with h1 h2
  · have h128 : ofChar (toUchar n) = n :=
      ofChar_toUchar h1.1 (Int32.le_of_lt (Int32.lt_trans (by decide) h1.2))
    have h80 : toUchar n ≠ 0x80 := by
      intro h
      rw [h] at h128
      subst h128
      revert h1
      decide
    have h81 : toUchar n ≠ 0x81 := by
      intro h
      rw [h] at h128
      subst h128
      revert h1
      decide
    simp [intVal, intSize, h80, h81, h128]
  · simp [intVal, intSize, short_of_bytes h2.1 h2.2]
  · simp [intVal, intSize, word_of_bytes]

theorem uintNat_append {n : Int32} (h : -2 ^ 28 ≤ n.toInt ∧ n.toInt < 2 ^ 28) (bs : List UInt8) :
    uintNat (uintBytes n ++ bs) = unat n % 2 ^ 29 ∧
      uintSize (uintBytes n ++ bs) = (uintBytes n).length := by
  have ht := toInt_eq n
  have hn := unat_lt n
  have h7 := unat_shr_mod (toInt_shr7 n) (by norm_num)
  have h14 := unat_shr_mod (toInt_shr14 n) (by norm_num)
  have h21 := unat_shr_mod (toInt_shr21 n) (by norm_num)
  have c21 : n < 0 ∨ n ≥ (1 : Int32) <<< 21 ↔ unat n ≥ 2 ^ 21 := by
    rw [Int32.lt_iff_toInt_lt, ge_iff_le, Int32.le_iff_toInt_le,
      show ((1 : Int32) <<< 21).toInt = 2 ^ 21 by decide, show (0 : Int32).toInt = 0 by decide]
    split_ifs at ht <;> omega
  have c7 (hs : ¬ unat n ≥ 2 ^ 21) : n < (1 : Int32) <<< 7 ↔ unat n < 2 ^ 7 := by
    rw [Int32.lt_iff_toInt_lt, show ((1 : Int32) <<< 7).toInt = 2 ^ 7 by decide]
    split_ifs at ht <;> omega
  have c14 (hs : ¬ unat n ≥ 2 ^ 21) : n < (1 : Int32) <<< 14 ↔ unat n < 2 ^ 14 := by
    rw [Int32.lt_iff_toInt_lt, show ((1 : Int32) <<< 14).toInt = 2 ^ 14 by decide]
    split_ifs at ht <;> omega
  have hrange : unat n < 2 ^ 28 ∨ 2 ^ 32 - 2 ^ 28 ≤ unat n := by
    split_ifs at ht <;> omega
  clear ht h
  unfold uintBytes putuint_ vecAdd
  by_cases s21 : unat n ≥ 2 ^ 21
  · rw [if_pos (c21.mpr s21)]
    simp only [uintNat, uintSize, List.nil_append, List.cons_append, List.getD_cons_zero,
      List.getD_cons_succ, toNat_toUchar, unat_group, List.length_cons, List.length_nil]
    rw [if_neg (by omega), if_neg (by omega), if_neg (by omega), if_neg (by omega),
      if_neg (by omega), if_neg (by omega)]
    omega
  rw [if_neg (fun hc => s21 (c21.mp hc))]
  by_cases s7 : unat n < 2 ^ 7
  · rw [if_pos ((c7 s21).mpr s7)]
    simp only [uintNat, uintSize, List.nil_append, List.cons_append, List.getD_cons_zero,
      toNat_toUchar, List.length_cons, List.length_nil]
    rw [if_pos (by omega), if_pos (by omega)]
    omega
  rw [if_neg (fun hc => s7 ((c7 s21).mp hc))]
  by_cases s14 : unat n < 2 ^ 14
  · rw [if_pos ((c14 s21).mpr s14)]
    simp only [uintNat, uintSize, List.nil_append, List.cons_append, List.getD_cons_zero,
      List.getD_cons_succ, toNat_toUchar, unat_group, List.length_cons, List.length_nil]
    rw [if_neg (by omega), if_pos (by omega), if_neg (by omega), if_pos (by omega)]
    omega
  · rw [if_neg (fun hc => s14 ((c14 s21).mp hc))]
    simp only [uintNat, uintSize, List.nil_append, List.cons_append, List.getD_cons_zero,
      List.getD_cons_succ, toNat_toUchar, unat_group, List.length_cons, List.length_nil]
    rw [if_neg (by omega), if_neg (by omega), if_pos (by omega), if_neg (by omega),
      if_neg (by omega), if_pos (by omega)]
    omega

/-- Faced with the bytes of `n`, `getint` returns `n` and skips exactly those bytes. -/
theorem getint_of_rest {p : DataBuf} {n : Int32} {bs : List UInt8}
    (h : p.rest = intBytes n ++ bs) : getint p = (n, p.skip (intBytes n).length) := by
  rw [getint_eq, h, (intVal_append n bs).1, (intVal_append n bs).2, DataBuf.reads_of_rest h]

/-- Faced with the bytes of `n`, `getuint` returns `n` and skips exactly those bytes. -/
theorem getuint_of_rest {p : DataBuf} {n : Int32} {bs : List UInt8}
    (hn : -2 ^ 28 ≤ n.toInt ∧ n.toInt < 2 ^ 28) (h : p.rest = uintBytes n ++ bs) :
    getuint p = (n, p.skip (uintBytes n).length) := by
  obtain ⟨hval, hsize⟩ := getuint_spec p
  obtain ⟨hnat, hbytes⟩ := uintNat_append hn bs
  rw [h, hbytes, DataBuf.reads_of_rest h] at hsize
  rw [h, hnat] at hval
  have hlt := unat_lt n
  have ht := toInt_eq n
  have hu : unat (getuint p).1 = unat n := by
    split_ifs at hval ht <;> omega
  exact Prod.ext (unat_inj hu) hsize

end Zuckerserv

import Mathlib.Data.Nat.Digits.Lemmas
import Mathlib.FieldTheory.Finite.Basic
import Mathlib.GroupTheory.OrderOfElement
import Zuckerserv.Shared.Curve
import Zuckerserv.Shared.GField

/-!
# Challenges

A client proves that it has a private key: the server multiplies the public key and the base point
by a number of its own, and sends the second product as the challenge; the client multiplies that
by its key, and both have the same point. Keys and points are sent as text, a point by the first
coordinate and the last bit of the second one.

* `printdigits`, `parsedigits` — numbers as hexadecimal text.
* `sqrt`, `calcy`, `print`, `parse` — points as text.
* `genprivkey`, `genchallenge`, `answerchallenge`, `checkchallenge` — the exchange.
* `parse_print` — a point that is not the origin is read back.
* `challenge_answered` — the answer to a challenge is accepted.
-/

namespace Zuckerserv

namespace Challenge

open BigInt (isxdigit hexval)

/-! ## Numbers -/

/-- A hexadecimal digit. -/
def digit (val : Nat) : Char :=
  if val < 10 then Char.ofNat ('0'.toNat + val) else Char.ofNat ('a'.toNat + val - 10)

/-- The four digits of a word. -/
def word (d : Nat) : List Char := [12, 8, 4, 0].map fun shift => digit ((d >>> shift) % 16)

/-- `printdigits(buf)` of the number `n`: its words have 16 bits, and the first one is not zero. -/
def printdigits (n : Nat) : List Char := (Nat.digits 65536 n).reverse.flatMap word

/-- What `parse(s)` reads into an array of `maxlen` words. -/
def parsedigits (maxlen : Nat) (s : List Char) : Nat :=
  let s := s.takeWhile isxdigit
  if (s.length + 3) / 4 > maxlen then 0
  else s.foldl (fun n c => n * 16 + (hexval c).toNat) 0

/-- The number of words of a `gfint`. -/
def GFINT_DIGITS : Nat := GField.GF_DIGITS + 1

theorem hexval_digit : ∀ v < 16, (hexval (digit v)).toNat = v ∧ isxdigit (digit v) = true := by
  decide

theorem foldl_word (n : Nat) {d : Nat} (hd : d < 65536) :
    (word d).foldl (fun n c => n * 16 + (hexval c).toNat) n = n * 65536 + d := by
  have hval (shift : Nat) : (hexval (digit ((d >>> shift) % 16))).toNat = d / 2 ^ shift % 16 := by
    rw [(hexval_digit _ (Nat.mod_lt _ (by decide))).1, Nat.shiftRight_eq_div_pow]
  simp only [word, List.map_cons, List.map_nil, List.foldl_cons, List.foldl_nil, hval]
  norm_num
  omega

theorem foldl_words {l : List Nat} (hl : ∀ d ∈ l, d < 65536) :
    (l.reverse.flatMap word).foldl (fun n c => n * 16 + (hexval c).toNat) 0 =
      Nat.ofDigits 65536 l := by
  induction l with
  | nil => rfl
  | cons d l ih =>
    rw [List.forall_mem_cons] at hl
    rw [List.reverse_cons, List.flatMap_append, List.foldl_append, ih hl.2, List.flatMap_singleton,
      foldl_word _ hl.1, Nat.ofDigits_cons]
    ring

/-- A number that fits is read back. -/
theorem parsedigits_printdigits {maxlen n : Nat} (hn : n < 65536 ^ maxlen) :
    parsedigits maxlen (printdigits n) = n := by
  have hdigits : ∀ d ∈ Nat.digits 65536 n, d < 65536 := fun d hd =>
    Nat.digits_lt_base (by decide) hd
  have hhex : ∀ c ∈ printdigits n, isxdigit c = true := by
    intro c hc
    obtain ⟨d, -, hc⟩ := List.mem_flatMap.mp hc
    obtain ⟨shift, -, rfl⟩ := List.mem_map.mp hc
    exact (hexval_digit _ (Nat.mod_lt _ (by decide))).2
  have hlength : (printdigits n).length = 4 * (Nat.digits 65536 n).length := by
    unfold printdigits
    rw [List.length_flatMap]
    simp [word, Nat.mul_comm]
  have hmax : (Nat.digits 65536 n).length ≤ maxlen :=
    (Nat.digits_length_le_iff (by decide) n).mpr hn
  unfold parsedigits
  rw [List.takeWhile_eq_self_iff.mpr hhex]
  dsimp only
  rw [hlength, if_neg (by omega)]
  exact (foldl_words hdigits).trans (Nat.ofDigits_digits 65536 n)

/-! ## Points -/

instance : Fact p192.Prime := ⟨prime_p192⟩

/-- The field. -/
abbrev Gf : Type := ZMod p192

/-- `ecjacobian::B`. -/
def B : Gf := 0x64210519e59c80e70fa7e9ab72243049feb8deecc146b9b1

/-- `ecjacobian::base`. -/
def base : Ecjacobian Gf :=
  ⟨0x188da80eb03090f67cbf20eb43a18800f4ff0afd82ff1012,
    0x07192b95ffc8da78631011ed6b24cdd573f977a11e794811, 1⟩

/-- `hasbit(0)`. -/
def hasbit (x : Gf) : Bool := x.val % 2 = 1

/-- The loop of `pow`, after the bit `i` of `y`: the square, and the product. -/
def powLoop (x : Gf) (y : Nat) : Nat → Gf × Gf
  | 0 => (x, if y.testBit 0 then x else 1)
  | i + 1 =>
    let (a, r) := powLoop x y i
    let a := a * a
    (a, if y.testBit (i + 1) then r * a else r)

/-- `gfield &pow(const bigint &x, const bigint &y)`. -/
def pow (x : Gf) (y : Nat) : Gf := (powLoop x y (y.size - 1)).2

/-- `int legendre(const bigint &x)`: 1 for what has one word. -/
def legendre (x : Gf) : Int :=
  let L := pow x ((p192 - 1) / 2)
  if L = 0 then 0 else if L.val < 65536 then 1 else -1

/-- `bool sqrt(const gfield &x)`; there is none where it returns `false`. -/
def sqrt (x : Gf) : Option Gf :=
  if x = 0 then some 0
  else if legendre x = 0 then some 0
  else if legendre x = -1 then none
  else some (pow x ((p192 + 1) / 4))

/-- The root, or the other one: `if(y.hasbit(0) != ybit) y.neg()`. -/
def signed (ybit : Bool) (y : Gf) : Gf := if hasbit y ≠ ybit then -y else y

/-- The second coordinate that `calcy(ybit)` finds. -/
def calcy (x : Gf) (ybit : Bool) : Gf :=
  (sqrt (x * x * x - (x + x + x) + B)).elim 0 (signed ybit)

/-- `void print(vector<char> &buf)`. -/
def print (p : Ecjacobian Gf) : List Char :=
  let p := p.normalize
  (if hasbit p.y then '-' else '+') :: printdigits p.x.val

/-- `void parse(const char *s)`. -/
def parse (s : List Char) : Ecjacobian Gf :=
  let ybit := s.head? == some '-'
  let x : Gf := parsedigits GFINT_DIGITS s.tail
  ⟨x, calcy x ybit, 1⟩

/-! ## The exchange -/

section Exchange

/-! `tiger` is the hash of a text, as a number of 24 bytes. -/

variable (tiger : List UInt8 → BitVec 192)

/-- `void genprivkey(const char *seed, vector<char> &privstr, vector<char> &pubstr)`. -/
def genprivkey (seed : List UInt8) : List Char × List Char :=
  let privkey := (tiger seed).toNat
  (printdigits privkey, print (base.mul privkey).normalize)

/-- `void *genchallenge(void *pubkey, const void *seed, int seedlen, vector<char> &challengestr)`:
the challenge, and the answer. -/
def genchallenge (pubkey : Ecjacobian Gf) (seed : List UInt8) : List Char × Gf :=
  let challenge := (tiger seed).toNat
  (print (base.mul challenge).normalize, (pubkey.mul challenge).normalize.x)

end Exchange

/-- `void *parsepubkey(const char *pubstr)`. -/
def parsepubkey (pubstr : List Char) : Ecjacobian Gf := parse pubstr

/-- `void answerchallenge(const char *privstr, const char *challenge, vector<char> &answerstr)`. -/
def answerchallenge (privstr challenge : List Char) : List Char :=
  let privkey := parsedigits GFINT_DIGITS privstr
  printdigits ((parse challenge).mul privkey).normalize.x.val

/-- `bool checkchallenge(const char *answerstr, void *correct)`. -/
def checkchallenge (answerstr : List Char) (correct : Gf) : Bool :=
  parsedigits GFINT_DIGITS answerstr == correct.val

/-! ## The base point -/

theorem two_ne_zero : (2 : Gf) ≠ 0 := by decide +kernel

theorem nonsingular_base : (Ecjacobian.curve B).Nonsingular base.x base.y := by
  rw [WeierstrassCurve.Affine.nonsingular_iff', WeierstrassCurve.Affine.equation_iff]
  simp only [Ecjacobian.curve]
  refine ⟨by decide +kernel, .inr (by decide +kernel)⟩

/-- The base point. -/
def basePoint : (Ecjacobian.curve B).Point := .some base.x base.y nonsingular_base

theorem stands_base : base.Stands basePoint := Ecjacobian.stands_ofPoint basePoint

/-! ## Points as text -/

theorem p192_odd : p192 % 2 = 1 := by norm_num [p192]

/-- Of two opposite values that are not zero, one is odd. -/
theorem hasbit_neg {y : Gf} (hy : y ≠ 0) : hasbit (-y) = !hasbit y := by
  have hval : (-y).val = p192 - y.val := by
    rw [ZMod.neg_val, if_neg hy]
  have hlt := ZMod.val_lt y
  have hodd := p192_odd
  unfold hasbit
  rw [hval]
  rcases Nat.mod_two_eq_zero_or_one y.val with h | h
  · have hneg : (p192 - y.val) % 2 = 1 := by omega
    rw [h, hneg]
    rfl
  · have hneg : (p192 - y.val) % 2 = 0 := by omega
    rw [h, hneg]
    rfl

theorem mod_two_pow (y i : Nat) :
    y % 2 ^ (i + 1) = y % 2 ^ i + 2 ^ i * (y.testBit i).toNat := by
  rw [Nat.mod_pow_succ, Nat.toNat_testBit]

theorem powLoop_eq (x : Gf) (y i : Nat) :
    powLoop x y i = (x ^ 2 ^ i, x ^ (y % 2 ^ (i + 1))) := by
  induction i with
  | zero =>
    refine Prod.ext (pow_one x).symm ?_
    rw [mod_two_pow]
    change (if y.testBit 0 then x else 1) = _
    cases y.testBit 0 with
    | false => simp [Nat.mod_one]
    | true => simp [Nat.mod_one]
  | succ i ih =>
    have hstep : powLoop x y (i + 1) = ((powLoop x y i).1 * (powLoop x y i).1,
      if y.testBit (i + 1) then (powLoop x y i).2 * ((powLoop x y i).1 * (powLoop x y i).1)
      else (powLoop x y i).2) := rfl
    have hsquare : x ^ 2 ^ i * x ^ 2 ^ i = x ^ 2 ^ (i + 1) := by
      rw [← pow_add, pow_succ, mul_two]
    rw [hstep, ih]
    dsimp only
    rw [hsquare, mod_two_pow y (i + 1)]
    cases y.testBit (i + 1) with
    | false => simp
    | true =>
      rw [if_pos rfl, Bool.toNat_true, mul_one]
      exact Prod.ext rfl (pow_add x _ _).symm

theorem pow_eq (x : Gf) (y : Nat) : pow x y = x ^ y := by
  have hlt : y < 2 ^ (y.size - 1 + 1) := by
    refine Nat.lt_of_lt_of_le (Nat.lt_size_self y) (Nat.pow_le_pow_right Nat.two_pos ?_)
    exact Nat.le_add_of_sub_le (Nat.le_refl _)
  have hloop := congrArg Prod.snd (powLoop_eq x y (y.size - 1))
  rw [Nat.mod_eq_of_lt hlt] at hloop
  exact hloop

/-- A square has a root that is found. -/
theorem sqrt_mul_self (y : Gf) : ∃ r, sqrt (y * y) = some r ∧ (r = y ∨ r = -y) := by
  unfold sqrt
  by_cases hy : y = 0
  · rw [if_pos (by rw [hy, mul_zero])]
    exact ⟨0, rfl, .inl hy.symm⟩
  · have hL : (y * y) ^ ((p192 - 1) / 2) = 1 := by
      have hhalf : 2 * ((p192 - 1) / 2) = p192 - 1 := by norm_num [p192]
      rw [← sq, ← pow_mul, hhalf]
      exact ZMod.pow_card_sub_one_eq_one hy
    have hlegendre : legendre (y * y) = 1 := by
      unfold legendre
      dsimp only
      rw [pow_eq, hL, if_neg one_ne_zero, if_pos]
      have hval : (1 : Gf).val = 1 := ZMod.val_one p192
      rw [hval]
      decide
    rw [if_neg (mul_ne_zero hy hy), hlegendre, if_neg (by decide), if_neg (by decide)]
    refine ⟨_, rfl, sq_eq_sq_iff_eq_or_eq_neg.mp ?_⟩
    have hquarter : (p192 + 1) / 4 * 2 = (p192 - 1) / 2 + 1 := by norm_num [p192]
    rw [pow_eq, ← pow_mul, hquarter, pow_succ, hL, one_mul, sq]

theorem signed_hasbit {y r : Gf} (hr : r = y ∨ r = -y) : signed (hasbit y) r = y := by
  unfold signed
  rcases hr with hr | hr
  · rw [hr]
    exact if_neg fun hne => hne rfl
  · by_cases hy : y = 0
    · rw [hr, hy, neg_zero, neg_zero, ite_self]
    · have hflip : hasbit r ≠ hasbit y := by
        rw [hr, hasbit_neg hy]
        exact Bool.not_ne_self _
      rw [if_pos hflip, hr, neg_neg]

theorem calcy_of_sqrt {x r : Gf} {ybit : Bool}
    (h : sqrt (x * x * x - (x + x + x) + B) = some r) : calcy x ybit = signed ybit r :=
  congrArg (fun o : Option Gf => o.elim 0 (signed ybit)) h

/-- The second coordinate is found again by its last bit. -/
theorem calcy_of_equation {x y : Gf} (h : y * y = x * x * x - (x + x + x) + B) :
    calcy x (hasbit y) = y := by
  obtain ⟨r, hsqrt, hr⟩ := sqrt_mul_self y
  rw [h] at hsqrt
  exact (calcy_of_sqrt hsqrt).trans (signed_hasbit hr)

theorem val_lt (x : Gf) : x.val < 65536 ^ GFINT_DIGITS := by
  refine Nat.lt_trans (ZMod.val_lt x) ?_
  norm_num [p192, GFINT_DIGITS, GField.GF_DIGITS]

theorem print_eq (p : Ecjacobian Gf) : print p =
    (if hasbit p.normalize.y then '-' else '+') :: printdigits p.normalize.x.val := rfl

theorem parse_cons (c : Char) (s : List Char) : parse (c :: s) =
    ⟨(parsedigits GFINT_DIGITS s : Gf), calcy (parsedigits GFINT_DIGITS s : Gf)
      (some c == some '-'), 1⟩ := rfl

/-- A point that is not the origin is read back, in its normalized coordinates. -/
theorem parse_print {p : Ecjacobian Gf} {P : (Ecjacobian.curve B).Point} (hp : p.Stands P)
    (hP : P ≠ 0) : parse (print p) = Ecjacobian.ofPoint P := by
  cases P with
  | zero => exact absurd rfl hP
  | some x y h =>
    have hequation : y * y = x * x * x - (x + x + x) + B := by
      have heq := ((Ecjacobian.curve B).equation_iff x y).mp h.1
      simp only [Ecjacobian.curve] at heq
      linear_combination heq
    have hsign : (some (if hasbit y then '-' else '+') == some '-') = hasbit y := by
      cases hasbit y <;> rfl
    have hx : ((parsedigits GFINT_DIGITS (printdigits x.val) : Nat) : Gf) = x := by
      rw [parsedigits_printdigits (val_lt x), ZMod.natCast_zmod_val]
    rw [print_eq, hp.normalize, parse_cons]
    change (⟨((parsedigits GFINT_DIGITS (printdigits x.val) : Nat) : Gf),
      calcy ((parsedigits GFINT_DIGITS (printdigits x.val) : Nat) : Gf)
        (some (if hasbit y then '-' else '+') == some '-'), 1⟩ : Ecjacobian Gf) = ⟨x, y, 1⟩
    rw [hsign, hx, calcy_of_equation hequation]

/-! ## The answer -/

/-- A multiple of the base point is read back from its text. -/
theorem parse_print_base {k : Nat} (hk : ¬ addOrderOf basePoint ∣ k) :
    parse (print (base.mul k).normalize) = Ecjacobian.ofPoint (k • basePoint) := by
  rw [(stands_base.mul two_ne_zero k).normalize]
  refine parse_print (Ecjacobian.stands_ofPoint _) fun hzero => hk ?_
  exact addOrderOf_dvd_iff_nsmul_eq_zero.mpr hzero

/-- For every private key and every challenge, the answer is accepted. -/
theorem challenge_answered (tiger : List UInt8 → BitVec 192) (keyseed seed : List UInt8)
    (hkey : ¬ addOrderOf basePoint ∣ (tiger keyseed).toNat)
    (hseed : ¬ addOrderOf basePoint ∣ (tiger seed).toNat) :
    let key := genprivkey tiger keyseed
    let challenge := genchallenge tiger (parsepubkey key.2) seed
    checkchallenge (answerchallenge key.1 challenge.1) challenge.2 = true := by
  have hprivkey : parsedigits GFINT_DIGITS (printdigits (tiger keyseed).toNat) =
      (tiger keyseed).toNat := by
    refine parsedigits_printdigits (Nat.lt_trans (tiger keyseed).isLt ?_)
    norm_num [GFINT_DIGITS, GField.GF_DIGITS]
  have hmul (k n : Nat) : ((Ecjacobian.ofPoint (k • basePoint)).mul n).normalize =
      Ecjacobian.ofPoint (n • k • basePoint) :=
    ((Ecjacobian.stands_ofPoint _).mul two_ne_zero n).normalize
  change (parsedigits GFINT_DIGITS (printdigits
    ((parse (print (base.mul (tiger seed).toNat).normalize)).mul
      (parsedigits GFINT_DIGITS (printdigits (tiger keyseed).toNat))).normalize.x.val) ==
    ((parse (print (base.mul (tiger keyseed).toNat).normalize)).mul
      (tiger seed).toNat).normalize.x.val) = true
  rw [hprivkey, parse_print_base hkey, parse_print_base hseed, hmul, hmul, smul_comm,
    parsedigits_printdigits (val_lt _), beq_self_eq_true]

/-- Twice the base point is not zero, since its negative has another `y`. -/
theorem not_dvd_two : ¬ addOrderOf basePoint ∣ 2 := by
  intro h
  have hzero := addOrderOf_dvd_iff_nsmul_eq_zero.mp h
  rw [two_nsmul] at hzero
  have hneg : basePoint = -basePoint := eq_neg_of_add_eq_zero_left hzero
  rw [basePoint, WeierstrassCurve.Affine.Point.neg_some,
    WeierstrassCurve.Affine.Point.some.injEq] at hneg
  exact absurd hneg.2 (by decide +kernel)

/-- The key 2 and the challenge 2: points are doubled, and numbers reduced. -/
theorem challenge_answered_two :
    let key := genprivkey (fun _ => 2) []
    let challenge := genchallenge (fun _ => 2) (parsepubkey key.2) []
    checkchallenge (answerchallenge key.1 challenge.1) challenge.2 = true :=
  challenge_answered (fun _ => 2) [] [] not_dvd_two not_dvd_two

end Challenge

end Zuckerserv

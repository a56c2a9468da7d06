import Mathlib.Data.Nat.Basic
import Zuckerserv.Shared.Text

/-!
# The encoding of the game and UTF-8

The game has an encoding of its own: one byte a character, the characters being some of those that
two bytes of UTF-8 can express. Names are converted on the way to the scripts and back.

* `cube2uni`, `uni2cube` — one character.
* `encodeutf8`, `decodeutf8` — the code, for strings.
* `round_lt` — every round of the decoder goes forward.
* `round_encodeChar` — it reads one encoded character.
* `decodeutf8_spec` — the way there and back, and that no character is zero.
-/

namespace Zuckerserv

namespace Text

/-! ## Characters -/

/-- `cube2unichars`. -/
def cube2unichars : List Nat :=
  [0, 192, 193, 194, 195, 196, 197, 198, 199, 9, 10, 11, 12, 13, 200, 201, 202, 203, 204, 205, 206,
   207, 209, 210, 211, 212, 213, 214, 216, 217, 218, 219, 32, 33, 34, 35, 36, 37, 38, 39, 40, 41,
   42, 43, 44, 45, 46, 47, 48, 49, 50, 51, 52, 53, 54, 55, 56, 57, 58, 59, 60, 61, 62, 63, 64, 65,
   66, 67, 68, 69, 70, 71, 72, 73, 74, 75, 76, 77, 78, 79, 80, 81, 82, 83, 84, 85, 86, 87, 88, 89,
   90, 91, 92, 93, 94, 95, 96, 97, 98, 99, 100, 101, 102, 103, 104, 105, 106, 107, 108, 109, 110,
   111, 112, 113, 114, 115, 116, 117, 118, 119, 120, 121, 122, 123, 124, 125, 126, 220, 221, 223,
   224, 225, 226, 227, 228, 229, 230, 231, 232, 233, 234, 235, 236, 237, 238, 239, 241, 242, 243,
   244, 245, 246, 248, 249, 250, 251, 252, 253, 255, 0x104, 0x105, 0x106, 0x107, 0x10C, 0x10D,
   0x10E, 0x10F, 0x118, 0x119, 0x11A, 0x11B, 0x11E, 0x11F, 0x130, 0x131, 0x141, 0x142, 0x143, 0x144,
   0x147, 0x148, 0x150, 0x151, 0x152, 0x153, 0x158, 0x159, 0x15A, 0x15B, 0x15E, 0x15F, 0x160, 0x161,
   0x164, 0x165, 0x16E, 0x16F, 0x170, 0x171, 0x178, 0x179, 0x17A, 0x17B, 0x17C, 0x17D, 0x17E, 0x404,
   0x411, 0x413, 0x414, 0x416, 0x417, 0x418, 0x419, 0x41B, 0x41F, 0x423, 0x424, 0x426, 0x427, 0x428,
   0x429, 0x42A, 0x42B, 0x42C, 0x42D, 0x42E, 0x42F, 0x431, 0x432, 0x433, 0x434, 0x436, 0x437, 0x438,
   0x439, 0x43A, 0x43B, 0x43C, 0x43D, 0x43F, 0x442, 0x444, 0x446, 0x447, 0x448, 0x449, 0x44A, 0x44B,
   0x44C, 0x44D, 0x44E, 0x44F, 0x454, 0x490, 0x491]

/-- `uni2cubeoffsets`. -/
def uni2cubeoffsets : List Nat := [0, 256, 658, 658, 512, 658, 658, 658]

/-- `uni2cubechars`. -/
def uni2cubechars : List UInt8 :=
  [0, 0, 0, 0, 0, 0, 0, 0, 0, 9, 10, 11, 12, 13, 0, 0, 0, 0, 0, 0, 0, 0, 0, 0, 0, 0, 0, 0, 0, 0, 0,
   0, 32, 33, 34, 35, 36, 37, 38, 39, 40, 41, 42, 43, 44, 45, 46, 47, 48, 49, 50, 51, 52, 53, 54,
   55, 56, 57, 58, 59, 60, 61, 62, 63, 64, 65, 66, 67, 68, 69, 70, 71, 72, 73, 74, 75, 76, 77, 78,
   79, 80, 81, 82, 83, 84, 85, 86, 87, 88, 89, 90, 91, 92, 93, 94, 95, 96, 97, 98, 99, 100, 101,
   102, 103, 104, 105, 106, 107, 108, 109, 110, 111, 112, 113, 114, 115, 116, 117, 118, 119, 120,
   121, 122, 123, 124, 125, 126, 0, 0, 0, 0, 0, 0, 0, 0, 0, 0, 0, 0, 0, 0, 0, 0, 0, 0, 0, 0, 0, 0,
   0, 0, 0, 0, 0, 0, 0, 0, 0, 0, 0, 0, 0, 0, 0, 0, 0, 0, 0, 0, 0, 0, 0, 0, 0, 0, 0, 0, 0, 0, 0, 0,
   0, 0, 0, 0, 0, 0, 0, 0, 0, 0, 0, 1, 2, 3, 4, 5, 6, 7, 8, 14, 15, 16, 17, 18, 19, 20, 21, 0, 22,
   23, 24, 25, 26, 27, 0, 28, 29, 30, 31, 127, 128, 0, 129, 130, 131, 132, 133, 134, 135, 136, 137,
   138, 139, 140, 141, 142, 143, 144, 145, 0, 146, 147, 148, 149, 150, 151, 0, 152, 153, 154, 155,
   156, 157, 0, 158, 0, 0, 0, 0, 159, 160, 161, 162, 0, 0, 0, 0, 163, 164, 165, 166, 0, 0, 0, 0, 0,
   0, 0, 0, 167, 168, 169, 170, 0, 0, 171, 172, 0, 0, 0, 0, 0, 0, 0, 0, 0, 0, 0, 0, 0, 0, 0, 0, 173,
   174, 0, 0, 0, 0, 0, 0, 0, 0, 0, 0, 0, 0, 0, 0, 0, 175, 176, 177, 178, 0, 0, 179, 180, 0, 0, 0, 0,
   0, 0, 0, 181, 182, 183, 184, 0, 0, 0, 0, 185, 186, 187, 188, 0, 0, 189, 190, 191, 192, 0, 0, 193,
   194, 0, 0, 0, 0, 0, 0, 0, 0, 195, 196, 197, 198, 0, 0, 0, 0, 0, 0, 199, 200, 201, 202, 203, 204,
   205, 0, 0, 0, 0, 0, 0, 0, 0, 0, 0, 0, 0, 0, 0, 0, 0, 0, 0, 0, 0, 0, 0, 0, 0, 0, 0, 0, 0, 0, 0, 0,
   0, 0, 0, 0, 0, 0, 0, 0, 0, 0, 0, 0, 0, 0, 0, 0, 0, 0, 0, 0, 0, 0, 0, 0, 0, 0, 0, 0, 0, 0, 0, 0,
   0, 0, 0, 0, 0, 0, 0, 0, 0, 0, 0, 0, 0, 0, 0, 0, 0, 0, 0, 0, 0, 0, 0, 0, 0, 0, 0, 0, 0, 0, 0, 0,
   0, 0, 0, 0, 0, 0, 0, 0, 0, 0, 0, 0, 0, 0, 0, 0, 0, 0, 0, 0, 0, 0, 0, 0, 0, 0, 0, 0, 0, 0, 0, 0,
   0, 0, 0, 17, 0, 0, 206, 83, 73, 21, 74, 0, 0, 0, 0, 0, 0, 0, 65, 207, 66, 208, 209, 69, 210, 211,
   212, 213, 75, 214, 77, 72, 79, 215, 80, 67, 84, 216, 217, 88, 218, 219, 220, 221, 222, 223, 224,
   225, 226, 227, 97, 228, 229, 230, 231, 101, 232, 233, 234, 235, 236, 237, 238, 239, 111, 240,
   112, 99, 241, 121, 242, 120, 243, 244, 245, 246, 247, 248, 249, 250, 251, 252, 0, 141, 0, 0, 253,
   115, 105, 145, 106, 0, 0, 0, 0, 0, 0, 0, 0, 0, 0, 0, 0, 0, 0, 0, 0, 0, 0, 0, 0, 0, 0, 0, 0, 0, 0,
   0, 0, 0, 0, 0, 0, 0, 0, 0, 0, 0, 0, 0, 0, 0, 0, 0, 0, 0, 0, 0, 0, 0, 0, 0, 0, 0, 0, 0, 254, 255,
   0, 0, 0, 0, 0, 0, 0, 0, 0, 0, 0, 0, 0, 0, 0, 0, 0, 0, 0, 0, 0, 0, 0, 0, 0, 0, 0, 0, 0, 0, 0, 0,
   0, 0, 0, 0, 0, 0, 0, 0, 0, 0, 0, 0, 0, 0, 0, 0, 0, 0, 0, 0, 0, 0, 0, 0, 0, 0, 0, 0, 0, 0, 0, 0,
   0, 0, 0, 0, 0, 0, 0, 0, 0, 0, 0, 0, 0, 0, 0, 0, 0, 0, 0, 0, 0, 0, 0, 0, 0, 0, 0, 0, 0, 0, 0, 0,
   0, 0, 0, 0, 0, 0, 0, 0, 0, 0, 0, 0, 0, 0, 0, 0, 0, 0, 0, 0, 0, 0, 0, 0, 0, 0, 0, 0, 0, 0, 0, 0,
   0, 0, 0, 0, 0, 0, 0, 0, 0, 0, 0, 0, 0, 0, 0, 0, 0, 0, 0, 0, 0, 0, 0, 0, 0, 0, 0, 0, 0, 0, 0, 0,
   0, 0, 0, 0, 0, 0, 0, 0, 0, 0, 0, 0, 0, 0, 0, 0, 0, 0, 0, 0, 0, 0, 0, 0, 0, 0, 0, 0, 0, 0, 0, 0,
   0, 0, 0, 0, 0, 0, 0, 0, 0, 0, 0, 0, 0, 0, 0, 0, 0, 0, 0, 0, 0, 0, 0, 0, 0, 0, 0, 0]

/-- `int cube2uni(uchar c)`. -/
def cube2uni (c : UInt8) : Nat := cube2unichars.getD c.toNat 0

/-- The place in `uni2cubechars` where `uni2cube` looks. -/
def uni2cubeindex (c : Nat) : Nat := uni2cubeoffsets.getD (c >>> 8) 0 + (c &&& 0xFF)

/-- `uchar uni2cube(int c)`. The places of some characters lie behind the table; `beyond` is what is
there. -/
def uni2cube (beyond : Nat → UInt8) (c : Nat) : UInt8 :=
  if c ≤ 0x7FF then uni2cubechars.getD (uni2cubeindex c) (beyond (uni2cubeindex c)) else 0

/-! ## Strings -/

/-- The bytes of one character. -/
def encodeChar (c : UInt8) : Text :=
  let uni := cube2uni c
  if uni < 0x80 then [.ofNat uni]
  else if uni < 0x800 then [.ofNat (0xC0 ||| uni >>> 6), .ofNat (0x80 ||| (uni &&& 0x3F))]
  else if uni < 0x10000 then
    [.ofNat (0xE0 ||| uni >>> 12), .ofNat (0x80 ||| (uni >>> 6 &&& 0x3F)),
      .ofNat (0x80 ||| (uni &&& 0x3F))]
  else if uni < 0x110000 then
    [.ofNat (0xF0 ||| uni >>> 18), .ofNat (0x80 ||| (uni >>> 12 &&& 0x3F)),
      .ofNat (0x80 ||| (uni >>> 6 &&& 0x3F)), .ofNat (0x80 ||| (uni &&& 0x3F))]
  else []

/-- `const char *encodeutf8(const char *src, std::string &buf)`, for an empty `buf`. -/
def encodeutf8 : Text → Text
  | [] => []
  | c :: src => if c = 0 then [] else encodeChar c ++ encodeutf8 src

/-- Why a sequence of bytes is left: at the end of the string, or for the byte at `iter`, which is
looked at again. -/
inductive Broken
  | done
  | again (iter : Text)

/-- The next byte of a sequence: `if (!*++iter) break; c = *iter; if ((c & 0xC0) != 0x80) continue;
uni = (uni<<6) | (c & 0x3F);`. -/
def follow (uni : Nat) (iter : Text) : Except Broken (Nat × Text) :=
  match iter.tail with
  | [] => .error .done
  | c :: rest =>
    if c = 0 then .error .done
    else if c &&& 0xC0 ≠ 0x80 then .error (.again (c :: rest))
    else .ok (uni <<< 6 ||| (c &&& 0x3F).toNat, c :: rest)

/-- The sequence that begins with the byte `c` at `iter`: its number and its last byte. -/
def sequence (c : UInt8) (iter : Text) : Except Broken (Nat × Text) :=
  if c ≥ 0xE0 then
    if c ≥ 0xF0 then do
      let (uni, iter) ← follow (c &&& 0x7).toNat iter
      let (uni, iter) ← follow uni iter
      follow uni iter
    else do
      let (uni, iter) ← follow (c &&& 0xF).toNat iter
      follow uni iter
  else follow (c &&& 0x1F).toNat iter

/-- One round of the loop in `decodeutf8`: what is added to `buf`, and `iter` after it, or nothing
when the loop ends. -/
def round (beyond : Nat → UInt8) : Text → Text × Option Text
  | [] => ([], none)
  | c :: rest =>
    if c = 0 then ([], none)
    else if c < 0x80 then ([c], some rest)
    else if c ≥ 0xC0 then
      match sequence c (c :: rest) with
      | .error .done => ([], none)
      | .error (.again iter) => ([], some iter)
      | .ok (uni, iter) =>
        let c := uni2cube beyond uni
        if c = 0 then ([], some iter) else ([c], some iter.tail)
    else ([], some rest)

/-! ## The decoder goes forward -/

/-- What is left of the string is shorter than `n` bytes. -/
def Below (n : Nat) : Except Broken (Nat × Text) → Prop
  | .error .done => True
  | .error (.again iter) => iter.length < n
  | .ok (_, iter) => iter.length < n

theorem Below.bind {n : Nat} {x : Except Broken (Nat × Text)}
    {f : Nat × Text → Except Broken (Nat × Text)} (hx : Below n x)
    (hf : ∀ uni iter, iter.length < n → Below n (f (uni, iter))) : Below n (x >>= f) := by
  cases x with
  | error b => exact hx
  | ok r => exact hf r.1 r.2 hx

theorem follow_below {n : Nat} (uni : Nat) {iter : Text} (h : iter.length ≤ n) :
    Below n (follow uni iter) := by
  unfold follow
  cases iter with
  | nil => trivial
  | cons b iter =>
    rw [List.length_cons] at h
    cases iter with
    | nil => trivial
    | cons c rest =>
      rw [List.length_cons] at h
      dsimp only [List.tail_cons]
      split
      · trivial
      · split
        · show (c :: rest).length < n
          rw [List.length_cons]
          omega
        · show (c :: rest).length < n
          rw [List.length_cons]
          omega

theorem sequence_below (c : UInt8) (iter : Text) : Below iter.length (sequence c iter) := by
  unfold sequence
  split
  · split
    · refine (follow_below _ (Nat.le_refl _)).bind fun uni iter' h => ?_
      refine (follow_below uni h.le).bind fun uni iter' h => ?_
      exact follow_below uni h.le
    · refine (follow_below _ (Nat.le_refl _)).bind fun uni iter' h => ?_
      exact follow_below uni h.le
  · exact follow_below _ (Nat.le_refl _)

/-- Every round but the last one leaves less of the string. -/
theorem round_lt {beyond : Nat → UInt8} {iter iter' cs : Text}
    (h : round beyond iter = (cs, some iter')) : iter'.length < iter.length := by
  cases iter with
  | nil => cases h
  | cons c rest =>
    have hrest : rest.length < (c :: rest).length := Nat.lt_succ_self _
    have hbelow := sequence_below c (c :: rest)
    unfold round at h
    dsimp only at h
    split at h
    · cases h
    · split at h
      · cases h
        exact hrest
      · split at h
        · split at h
          · cases h
          · rename_i hsequence
            rw [hsequence] at hbelow
            cases h
            exact hbelow
          · rename_i uni next hsequence
            rw [hsequence] at hbelow
            split at h
            · cases h
              exact hbelow
            · cases h
              exact Nat.lt_of_le_of_lt (List.length_tail.trans_le (Nat.sub_le _ _)) hbelow
        · cases h
          exact hrest

/-- `const char *decodeutf8(const char *src, std::string &buf)`, for an empty `buf`. -/
def decodeutf8 (beyond : Nat → UInt8) (iter : Text) : Text :=
  match _hround : round beyond iter with
  | (cs, none) => cs
  | (cs, some iter') => cs ++ decodeutf8 beyond iter'
termination_by iter.length
decreasing_by exact round_lt _hround

/-- No round adds a zero. -/
theorem zero_not_mem_round (beyond : Nat → UInt8) (iter : Text) : 0 ∉ (round beyond iter).1 := by
  cases iter with
  | nil => exact List.not_mem_nil
  | cons c rest =>
    unfold round
    dsimp only
    split
    · exact List.not_mem_nil
    · rename_i hc
      split
      · exact fun h => hc (List.mem_singleton.mp h).symm
      · split
        · split
          · exact List.not_mem_nil
          · exact List.not_mem_nil
          · split
            · exact List.not_mem_nil
            · rename_i hcube
              exact fun h => hcube (List.mem_singleton.mp h).symm
        · exact List.not_mem_nil

theorem zero_not_mem_decodeutf8 (beyond : Nat → UInt8) (iter : Text) :
    0 ∉ decodeutf8 beyond iter := by
  fun_induction decodeutf8 beyond iter with
  | case1 iter cs hround =>
    have hcs := zero_not_mem_round beyond iter
    rwa [hround] at hcs
  | case2 iter cs iter' hround ih =>
    have hcs := zero_not_mem_round beyond iter
    rw [hround] at hcs
    intro hmem
    rcases List.mem_append.mp hmem with hmem | hmem
    · exact hcs hmem
    · exact ih hmem

/-! ## There and back -/

/-- What the two tables say about a character: either it is its own code, or the two bytes of its
code lead back to it. -/
def Converted (c : UInt8) : Text → Prop
  | [b] => b = c ∧ b < 0x80
  | [b, d] => b ≥ 0xC0 ∧ ¬ b ≥ 0xE0 ∧ d ≠ 0 ∧ d &&& 0xC0 = 0x80 ∧
      (b &&& 0x1F).toNat <<< 6 ||| (d &&& 0x3F).toNat ≤ 0x7FF ∧
      uni2cubechars[uni2cubeindex ((b &&& 0x1F).toNat <<< 6 ||| (d &&& 0x3F).toNat)]? = some c
  | _ => False

instance (c : UInt8) : (t : Text) → Decidable (Converted c t)
  | [] => inferInstanceAs (Decidable False)
  | [_] => inferInstanceAs (Decidable (_ ∧ _))
  | [_, _] => inferInstanceAs (Decidable (_ ∧ _))
  | _ :: _ :: _ :: _ => inferInstanceAs (Decidable False)

theorem converted_encodeChar {c : UInt8} (h : c ≠ 0) : Converted c (encodeChar c) := by
  have hall : ∀ n < 256, n ≠ 0 → Converted (.ofNat n) (encodeChar (.ofNat n)) := by decide +kernel
  have hc := hall c.toNat c.toNat_lt fun h0 => h (UInt8.toNat_inj.mp h0)
  rwa [UInt8.ofNat_toNat] at hc

/-- The decoder reads one encoded character. -/
theorem round_encodeChar (beyond : Nat → UInt8) {c : UInt8} (h : c ≠ 0) (rest : Text) :
    round beyond (encodeChar c ++ rest) = ([c], some rest) := by
  have hconverted := converted_encodeChar h
  match hbytes : encodeChar c with
  | [] =>
    rw [hbytes] at hconverted
    exact hconverted.elim
  | [b] =>
    rw [hbytes] at hconverted
    obtain ⟨rfl, hascii⟩ := hconverted
    show (if b = 0 then _ else if b < 0x80 then ([b], some rest) else _) = _
    rw [if_neg h, if_pos hascii]
  | [b, d] =>
    rw [hbytes] at hconverted
    obtain ⟨hb, hb', hd, hfollow, hle, htable⟩ := hconverted
    have hb0 : b ≠ 0 := by
      rintro rfl
      exact absurd hb (by decide)
    have hascii : ¬ b < 0x80 := fun hlt =>
      absurd (UInt8.lt_of_lt_of_le hlt (UInt8.le_trans (by decide) hb)) (UInt8.lt_irrefl b)
    have hsequence : sequence b (b :: d :: rest) =
        .ok ((b &&& 0x1F).toNat <<< 6 ||| (d &&& 0x3F).toNat, d :: rest) := by
      show (if b ≥ 0xE0 then _ else follow _ (b :: d :: rest)) = _
      rw [if_neg hb']
      show (if d = 0 then _ else if d &&& 0xC0 ≠ 0x80 then _ else _) = _
      rw [if_neg hd, if_neg (not_not.mpr hfollow)]
    have hcube : uni2cube beyond ((b &&& 0x1F).toNat <<< 6 ||| (d &&& 0x3F).toNat) = c := by
      rw [uni2cube, if_pos hle, List.getD_eq_getElem?_getD, htable]
      rfl
    show round beyond (b :: d :: rest) = _
    unfold round
    dsimp only
    rw [if_neg hb0, if_neg hascii, if_pos hb, hsequence]
    dsimp only
    rw [hcube, if_neg h]
    rfl
  | _ :: _ :: _ :: _ =>
    rw [hbytes] at hconverted
    exact hconverted.elim

theorem decodeutf8_of_round {beyond : Nat → UInt8} {iter cs iter' : Text}
    (h : round beyond iter = (cs, some iter')) :
    decodeutf8 beyond iter = cs ++ decodeutf8 beyond iter' := by
  rw [decodeutf8]
  split
  · rename_i hround
    rw [h] at hround
    cases hround
  · rename_i hround
    rw [h] at hround
    cases hround
    rfl

theorem decodeutf8_encodeutf8 (beyond : Nat → UInt8) {s : Text} (h : 0 ∉ s) :
    decodeutf8 beyond (encodeutf8 s) = s := by
  induction s with
  | nil =>
    rw [encodeutf8, decodeutf8]
    rfl
  | cons c s ih =>
    have hc : c ≠ 0 := fun hc => h (List.mem_cons.mpr (.inl hc.symm))
    rw [encodeutf8, if_neg hc, decodeutf8_of_round (round_encodeChar beyond hc _),
      ih fun hs => h (List.mem_cons_of_mem _ hs), List.singleton_append]

/-- Whatever lies behind the table: a string without zeros that is encoded and decoded is the same
again; and on any bytes each round of the decoder but the last one leaves less of the string, so
that it ends, and its result has no zeros. -/
theorem decodeutf8_spec (beyond : Nat → UInt8) :
    (∀ s : Text, 0 ∉ s → decodeutf8 beyond (encodeutf8 s) = s) ∧
    ∀ iter : Text, (∀ cs iter', round beyond iter = (cs, some iter') →
      iter'.length < iter.length ∧ decodeutf8 beyond iter = cs ++ decodeutf8 beyond iter') ∧
      0 ∉ decodeutf8 beyond iter :=
  ⟨fun _ h => decodeutf8_encodeutf8 beyond h, fun iter =>
    ⟨fun _ _ h => ⟨round_lt h, decodeutf8_of_round h⟩, zero_not_mem_decodeutf8 beyond iter⟩⟩

theorem decodeutf8_spec_zeros :
    decodeutf8 (fun _ => 0) (encodeutf8 [65, 129, 255]) = [65, 129, 255] ∧
      0 ∉ decodeutf8 (fun _ => 0) [0xE0, 0x80, 65] :=
  ⟨(decodeutf8_spec fun _ => 0).1 [65, 129, 255] (by decide),
    ((decodeutf8_spec fun _ => 0).2 [0xE0, 0x80, 65]).2⟩

end Text

end Zuckerserv

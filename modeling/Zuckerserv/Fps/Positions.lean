import Zuckerserv.Lib.WordBytes
import Zuckerserv.Shared.NetString

/-!
# Positions on the wire

`N_POS` says where a player is. Some of its fields are only there if a flag says so. The server
reads such messages from its clients, and `player_send_fake_npos` makes one for the scripts.

* `Npos`, `playerSendFakeNpos_`, `getNpos` — the code.
* `getNpos_snd` — which bytes are read.
* `flags_iff` — the flags that are sent.
* `getNpos_of_rest` — what was written is read.
* `getNpos_spec` — both, for every position and every message.
-/

namespace Zuckerserv

open Word32

/-! ## The writer -/

/-- `N_POS`. -/
def N_POS : Int32 := 4

/-- A position with all numbers rounded, in the ranges that the message can hold. The direction of
a fall is not sent. -/
structure Npos where
  pcn : Int32
  physstate : UInt8
  /-- `o`: the place. -/
  x : Int32
  y : Int32
  z : Int32
  /-- The speed. -/
  vel : Int32
  /-- The direction of the view. -/
  dir : Int32
  roll : UInt8
  /-- The direction of the movement. -/
  veldir : Int32
  pcn_range : 0 ≤ pcn.toInt ∧ pcn.toInt < 2 ^ 28
  x_range : -2 ^ 23 ≤ x.toInt ∧ x.toInt < 2 ^ 23
  y_range : -2 ^ 23 ≤ y.toInt ∧ y.toInt < 2 ^ 23
  z_range : -2 ^ 23 ≤ z.toInt ∧ z.toInt < 2 ^ 23
  vel_range : unat vel < 2 ^ 16
  dir_range : unat dir < 2 ^ 16
  veldir_range : unat veldir < 2 ^ 16

namespace Npos

/-- A coordinate that does not fit in two bytes without a sign. -/
def Wide (o : Int32) : Prop := o < 0 ∨ o > 0xFFFF

instance (o : Int32) : Decidable (Wide o) := inferInstanceAs (Decidable (_ ∨ _))

/-- `flags`. -/
def flags (m : Npos) : Int32 :=
  let flags : Int32 := 0
  let flags := if Wide m.x then flags ||| (1 : Int32) <<< 0 else flags
  let flags := if Wide m.y then flags ||| (1 : Int32) <<< 1 else flags
  let flags := if Wide m.z then flags ||| (1 : Int32) <<< 2 else flags
  if m.vel > 0xFF then flags ||| (1 : Int32) <<< 3 else flags

section Writers

variable {σ : Type} (put : σ → UInt8 → σ)

/-- One coordinate. -/
def putCoord (p : σ) (o : Int32) : σ :=
  let p := put (put p (toUchar (o &&& 0xFF))) (toUchar ((o >>> 8) &&& 0xFF))
  if Wide o then put p (toUchar ((o >>> 16) &&& 0xFF)) else p

/-- A number of two bytes. -/
def putPair (p : σ) (n : Int32) : σ :=
  put (put p (toUchar (n &&& 0xFF))) (toUchar ((n >>> 8) &&& 0xFF))

/-- The speed. -/
def putVel (p : σ) (vel : Int32) : σ :=
  let p := put p (toUchar (vel &&& 0xFF))
  if vel > 0xFF then put p (toUchar ((vel >>> 8) &&& 0xFF)) else p

/-- `player_send_fake_npos`, from the rounded numbers on. -/
def playerSendFakeNpos_ (p : σ) (m : Npos) : σ :=
  let p := putint_ put p N_POS
  let p := putuint_ put p m.pcn
  let p := put p m.physstate
  let p := putuint_ put p m.flags
  let p := putCoord put p m.x
  let p := putCoord put p m.y
  let p := putCoord put p m.z
  let p := putPair put p m.dir
  let p := put p m.roll
  let p := putVel put p m.vel
  putPair put p m.veldir

end Writers

/-- The message. -/
def bytes (m : Npos) : List UInt8 := playerSendFakeNpos_ vecAdd [] m

end Npos

/-! ## The reader -/

/-- What the server takes from the message. -/
structure NposRead where
  pcn : Int32
  flags : Int32
  /-- `pos`, before it is scaled. -/
  x : Int32
  y : Int32
  z : Int32
  /-- The bytes for `cam`, in the order in which they are read. -/
  cam : UInt8 × UInt8 × UInt8
  mag : Int32
  dir : Int32

/-- `flags&(1<<k)`. -/
def flagged (flags k : Int32) : Prop := flags &&& ((1 : Int32) <<< k) ≠ 0

instance (flags k : Int32) : Decidable (flagged flags k) := inferInstanceAs (Decidable (_ ≠ _))

/-- `int n = p.get(); n |= p.get()<<8;`. -/
def getPair (p : DataBuf) : Int32 × DataBuf :=
  let (b₀, p) := p.get
  let (b₁, p) := p.get
  (ofUchar b₀ ||| (ofUchar b₁ <<< 8), p)

/-- The coordinate `k`. -/
def getCoord (flags k : Int32) (p : DataBuf) : Int32 × DataBuf :=
  let (n, p) := getPair p
  if flagged flags k then
    let (b, p) := p.get
    let n := n ||| (ofUchar b <<< 16)
    (if n &&& 0x800000 ≠ 0 then n ||| ((-1 : Int32) <<< 24) else n, p)
  else (n, p)

/-- `int mag = p.get(); if(flags&(1<<3)) mag |= p.get()<<8;`. -/
def getMag (flags : Int32) (p : DataBuf) : Int32 × DataBuf :=
  let (b, p) := p.get
  if flagged flags 3 then
    let (b₁, p) := p.get
    (ofUchar b ||| (ofUchar b₁ <<< 8), p)
  else (ofUchar b, p)

/-- What is said about a fall is skipped. -/
def skipFall (flags : Int32) (p : DataBuf) : DataBuf :=
  if flagged flags 4 then
    let p := p.get.2
    let p := if flagged flags 5 then p.get.2 else p
    if flagged flags 6 then p.get.2.get.2 else p
  else p

/-- The case `N_POS` of `parsepacket`, up to the end of the message. -/
def getNpos (p : DataBuf) : NposRead × DataBuf :=
  let (pcn, p) := getuint p
  let (_, p) := p.get
  let (flags, p) := getuint p
  let (x, p) := getCoord flags 0 p
  let (y, p) := getCoord flags 1 p
  let (z, p) := getCoord flags 2 p
  let (cam₀, p) := p.get
  let (cam₁, p) := p.get
  let (cam₂, p) := p.get
  let (mag, p) := getMag flags p
  let (dir, p) := getPair p
  (⟨pcn, flags, x, y, z, (cam₀, cam₁, cam₂), mag, dir⟩, skipFall flags p)

/-! ## What is read -/

/-- The bytes of the coordinate `k`. -/
def coordSize (flags k : Int32) : Nat := if flagged flags k then 3 else 2

/-- The bytes of the speed. -/
def magSize (flags : Int32) : Nat := if flagged flags 3 then 2 else 1

/-- The bytes that are skipped. -/
def fallSize (flags : Int32) : Nat :=
  if flagged flags 4 then
    1 + (if flagged flags 5 then 1 else 0) + (if flagged flags 6 then 2 else 0)
  else 0

/-- The bytes behind the flags. -/
def nposSize (flags : Int32) : Nat :=
  coordSize flags 0 + coordSize flags 1 + coordSize flags 2 + 3 + magSize flags + 2 + fallSize flags

theorem getPair_snd (p : DataBuf) : (getPair p).2 = p.reads 2 := by
  simp only [getPair, DataBuf.get_eq, DataBuf.reads_reads]

theorem getCoord_snd (flags k : Int32) (p : DataBuf) :
    (getCoord flags k p).2 = p.reads (coordSize flags k) := by
  unfold getCoord coordSize
  dsimp only
  split
  · rw [getPair_snd, DataBuf.get_eq, DataBuf.reads_reads]
  · exact getPair_snd p

theorem getMag_snd (flags : Int32) (p : DataBuf) :
    (getMag flags p).2 = p.reads (magSize flags) := by
  unfold getMag magSize
  dsimp only
  split
  · simp only [DataBuf.get_eq, DataBuf.reads_reads]
  · simp only [DataBuf.get_eq]

theorem skipFall_eq (flags : Int32) (p : DataBuf) :
    skipFall flags p = p.reads (fallSize flags) := by
  unfold skipFall fallSize
  split_ifs <;> simp [DataBuf.get_eq]

/-- Behind the flags exactly the fields are read that they announce. -/
theorem getNpos_snd (p : DataBuf) :
    (getNpos p).1.flags = (getuint (getuint p).2.get.2).1 ∧
      (getNpos p).2 = (getuint (getuint p).2.get.2).2.reads
        (nposSize (getuint (getuint p).2.get.2).1) := by
  simp only [getNpos, skipFall_eq, getPair_snd, getMag_snd, getCoord_snd, true_and]
  generalize getuint (getuint p).2.get.2 = q
  simp only [DataBuf.get_eq, DataBuf.reads_reads, nposSize]

/-! ## What was written is read -/

namespace Npos

/-- The bytes of a coordinate. -/
def coordBytes (o : Int32) : List UInt8 := putCoord vecAdd [] o

/-- The bytes of a number of two bytes. -/
def pairBytes (n : Int32) : List UInt8 := putPair vecAdd [] n

/-- The bytes of the speed. -/
def velBytes (vel : Int32) : List UInt8 := putVel vecAdd [] vel

theorem putCoord_eq_foldl {σ : Type} (put : σ → UInt8 → σ) (p : σ) (o : Int32) :
    putCoord put p o = (coordBytes o).foldl put p := by
  unfold coordBytes putCoord
  dsimp only
  split_ifs <;> rfl

theorem putPair_eq_foldl {σ : Type} (put : σ → UInt8 → σ) (p : σ) (n : Int32) :
    putPair put p n = (pairBytes n).foldl put p := rfl

theorem putVel_eq_foldl {σ : Type} (put : σ → UInt8 → σ) (p : σ) (vel : Int32) :
    putVel put p vel = (velBytes vel).foldl put p := by
  unfold velBytes putVel
  dsimp only
  split_ifs <;> rfl

/-- The message, field by field, with anything behind it. -/
theorem bytes_append (m : Npos) (bs : List UInt8) :
    m.bytes ++ bs = intBytes N_POS ++ (uintBytes m.pcn ++ ([m.physstate] ++ (uintBytes m.flags ++
      (coordBytes m.x ++ (coordBytes m.y ++ (coordBytes m.z ++ (pairBytes m.dir ++
        ([m.roll] ++ (velBytes m.vel ++ (pairBytes m.veldir ++ bs)))))))))) := by
  have hone (p : List UInt8) (b : UInt8) : vecAdd p b = p ++ [b] := rfl
  simp only [bytes, playerSendFakeNpos_, putint_eq_foldl, putuint_eq_foldl, putCoord_eq_foldl,
    putPair_eq_foldl, putVel_eq_foldl, foldl_vecAdd, hone, List.nil_append, List.append_assoc]

/-! ### The flags -/

/-- The flags say which coordinates are wide and whether the speed needs a second byte; nothing is
said about a fall. -/
theorem flags_iff (m : Npos) :
    (flagged m.flags 0 ↔ Wide m.x) ∧ (flagged m.flags 1 ↔ Wide m.y) ∧
      (flagged m.flags 2 ↔ Wide m.z) ∧ (flagged m.flags 3 ↔ m.vel > 0xFF) ∧
      ¬ flagged m.flags 4 ∧ 0 ≤ m.flags.toInt ∧ m.flags.toInt < 2 ^ 4 := by
  unfold flags
  by_cases hx : Wide m.x <;> by_cases hy : Wide m.y <;> by_cases hz : Wide m.z <;>
    by_cases hv : m.vel > 0xFF <;>
    · simp only [hx, hy, hz, hv, if_true, if_false, iff_true, iff_false]
      decide

/-! ### Field by field -/

/-- A coordinate that is not wide fits in two bytes. -/
theorem unat_of_not_wide {o : Int32} (h : ¬ Wide o) : unat o < 2 ^ 16 := by
  rw [Wide, not_or, gt_iff_lt, Int32.lt_iff_toInt_lt, Int32.lt_iff_toInt_lt] at h
  obtain ⟨h0, h1⟩ := h
  have hzero : (0 : Int32).toInt = 0 := by decide
  have hmax : (0xFFFF : Int32).toInt = 65535 := by decide
  rw [hzero] at h0
  rw [hmax] at h1
  have ho := toInt_eq o
  have hlt := unat_lt o
  split at ho <;> omega

/-- A speed without a second byte fits in one. -/
theorem byte_of_not_big {vel : Int32} (hvel : unat vel < 2 ^ 16) (h : ¬ vel > 0xFF) :
    ofUchar (toUchar (vel &&& 0xFF)) = vel := by
  rw [gt_iff_lt, Int32.lt_iff_toInt_lt, toInt_eq vel, if_pos (by omega)] at h
  have hmax : (0xFF : Int32).toInt = 255 := by decide
  rw [hmax] at h
  apply unat_inj
  rw [toUchar_and, unat_ofUchar, toNat_toUchar]
  omega

theorem getPair_of_rest {p : DataBuf} {n : Int32} {bs : List UInt8} (hn : unat n < 2 ^ 16)
    (h : p.rest = pairBytes n ++ bs) : getPair p = (n, p.skip (pairBytes n).length) := by
  refine Prod.ext ?_ ((getPair_snd p).trans (DataBuf.reads_of_rest h))
  simp only [getPair, DataBuf.get_eq, DataBuf.rest_reads, h]
  exact pair_of_bytes hn

theorem length_coordBytes {flags k o : Int32} (hflag : flagged flags k ↔ Wide o) :
    (coordBytes o).length = coordSize flags k := by
  unfold coordBytes putCoord coordSize
  by_cases hwide : Wide o
  · simp [hwide, hflag.mpr hwide, vecAdd]
  · simp [hwide, mt hflag.mp hwide, vecAdd]

theorem getCoord_of_rest {p : DataBuf} {flags k o : Int32} {bs : List UInt8}
    (ho : -2 ^ 23 ≤ o.toInt ∧ o.toInt < 2 ^ 23) (hflag : flagged flags k ↔ Wide o)
    (h : p.rest = coordBytes o ++ bs) :
    getCoord flags k p = (o, p.skip (coordBytes o).length) := by
  refine Prod.ext ?_ ?_
  · unfold getCoord getPair
    dsimp only
    by_cases hwide : Wide o
    · rw [if_pos (hflag.mpr hwide)]
      simp only [DataBuf.get_eq, DataBuf.rest_reads, h, coordBytes, putCoord, if_pos hwide]
      exact triple_of_bytes ho rfl
    · rw [if_neg (mt hflag.mp hwide)]
      simp only [DataBuf.get_eq, DataBuf.rest_reads, h, coordBytes, putCoord, if_neg hwide]
      exact pair_of_bytes (unat_of_not_wide hwide)
  · rw [getCoord_snd, ← length_coordBytes hflag, DataBuf.reads_of_rest h]

theorem length_velBytes {flags vel : Int32} (hflag : flagged flags 3 ↔ vel > 0xFF) :
    (velBytes vel).length = magSize flags := by
  unfold velBytes putVel magSize
  by_cases hbig : vel > 0xFF
  · simp [hbig, hflag.mpr hbig, vecAdd]
  · simp [hbig, mt hflag.mp hbig, vecAdd]

theorem getMag_of_rest {p : DataBuf} {flags vel : Int32} {bs : List UInt8}
    (hvel : unat vel < 2 ^ 16) (hflag : flagged flags 3 ↔ vel > 0xFF)
    (h : p.rest = velBytes vel ++ bs) :
    getMag flags p = (vel, p.skip (velBytes vel).length) := by
  refine Prod.ext ?_ ?_
  · unfold getMag
    dsimp only
    by_cases hbig : vel > 0xFF
    · rw [if_pos (hflag.mpr hbig)]
      simp only [DataBuf.get_eq, DataBuf.rest_reads, h, velBytes, putVel, if_pos hbig]
      exact pair_of_bytes hvel
    · rw [if_neg (mt hflag.mp hbig)]
      simp only [DataBuf.get_eq, h, velBytes, putVel, if_neg hbig]
      exact byte_of_not_big hvel hbig
  · rw [getMag_snd, ← length_velBytes hflag, DataBuf.reads_of_rest h]

/-- What is read of a message. -/
def read (m : Npos) : NposRead :=
  ⟨m.pcn, m.flags, m.x, m.y, m.z,
    (toUchar (m.dir &&& 0xFF), toUchar ((m.dir >>> 8) &&& 0xFF), m.roll), m.vel, m.veldir⟩

theorem get_of_rest {p : DataBuf} {b : UInt8} {bs : List UInt8} (h : p.rest = [b] ++ bs) :
    p.get = (b, p.skip [b].length) := DataBuf.get_of_rest_cons h

/-- Faced with the bytes of a message, the reader returns its fields and takes exactly these
bytes. -/
theorem getNpos_of_rest {p : DataBuf} {m : Npos} {bs : List UInt8} (h : p.rest = m.bytes ++ bs) :
    (getint p).1 = N_POS ∧ getNpos (getint p).2 = (m.read, p.skip m.bytes.length) := by
  obtain ⟨hx, hy, hz, hvel, hfall, hflags⟩ := m.flags_iff
  have hdir : pairBytes m.dir =
      [toUchar (m.dir &&& 0xFF)] ++ [toUchar ((m.dir >>> 8) &&& 0xFF)] := rfl
  have hlen : m.bytes.length = (m.bytes ++ []).length := by rw [List.append_nil]
  rw [bytes_append, hdir, List.append_assoc] at h hlen
  have hlow : (-2 ^ 28 : Int) ≤ 0 := by norm_num
  have hhigh : (2 ^ 4 : Int) ≤ 2 ^ 28 := by norm_num
  -- one field after the other
  have htype := getint_of_rest h
  have r₁ := DataBuf.rest_skip_of_rest h
  have hpcn := getuint_of_rest ⟨hlow.trans m.pcn_range.1, m.pcn_range.2⟩ r₁
  have r₂ := DataBuf.rest_skip_of_rest r₁
  have hphysstate := get_of_rest r₂
  have r₃ := DataBuf.rest_skip_of_rest r₂
  have hflags := getuint_of_rest ⟨hlow.trans hflags.1, hflags.2.trans_le hhigh⟩ r₃
  have r₄ := DataBuf.rest_skip_of_rest r₃
  have hx := getCoord_of_rest m.x_range hx r₄
  have r₅ := DataBuf.rest_skip_of_rest r₄
  have hy := getCoord_of_rest m.y_range hy r₅
  have r₆ := DataBuf.rest_skip_of_rest r₅
  have hz := getCoord_of_rest m.z_range hz r₆
  have r₇ := DataBuf.rest_skip_of_rest r₆
  have hcam₀ := get_of_rest r₇
  have r₈ := DataBuf.rest_skip_of_rest r₇
  have hcam₁ := get_of_rest r₈
  have r₉ := DataBuf.rest_skip_of_rest r₈
  have hroll := get_of_rest r₉
  have r₁₀ := DataBuf.rest_skip_of_rest r₉
  have hmag := getMag_of_rest m.vel_range hvel r₁₀
  have r₁₁ := DataBuf.rest_skip_of_rest r₁₀
  have hveldir := getPair_of_rest m.veldir_range r₁₁
  refine ⟨by rw [htype], ?_⟩
  simp only [getNpos, htype, hpcn, hphysstate, hflags, hx, hy, hz, hcam₀, hcam₁, hroll, hmag,
    hveldir, skipFall, if_neg hfall, read]
  refine Prod.ext rfl ?_
  rw [hlen]
  simp only [DataBuf.skip_skip, List.length_append, List.length_nil, Nat.add_assoc, Nat.add_zero]

end Npos

/-- Every position that `player_send_fake_npos` sends is read as it was sent, whatever follows it,
and the reader stops behind its last byte: with nothing behind it the message is used up. The
direction of the view and the roll arrive in the three bytes of `cam`. Of any message at all,
behind the flags exactly the fields are read that these announce. -/
theorem getNpos_spec :
    (∀ (m : Npos) (following : List UInt8),
      let p := DataBuf.ofBytes (m.bytes ++ following)
      let r := (getNpos (getint p).2).1
      let q := (getNpos (getint p).2).2
      (getint p).1 = N_POS ∧ q.rest = following ∧ q.overread = false ∧
        r.pcn = m.pcn ∧ r.flags = m.flags ∧ r.x = m.x ∧ r.y = m.y ∧ r.z = m.z ∧
        r.mag = m.vel ∧ r.dir = m.veldir ∧
        (ofUchar r.cam.1 ||| (ofUchar r.cam.2.1 <<< 8)) = m.dir ∧ r.cam.2.2 = m.roll) ∧
    ∀ p : DataBuf,
      (getNpos p).1.flags = (getuint (getuint p).2.get.2).1 ∧
        (getNpos p).2 = (getuint (getuint p).2.get.2).2.reads (nposSize (getNpos p).1.flags) := by
  refine ⟨fun m following => ?_, fun p => ?_⟩
  · have hrest := DataBuf.rest_ofBytes (m.bytes ++ following)
    obtain ⟨htype, hread⟩ := Npos.getNpos_of_rest hrest
    intro p r q
    have hr : r = m.read := congrArg Prod.fst hread
    have hq : q = p.skip m.bytes.length := congrArg Prod.snd hread
    rw [hr, hq]
    exact ⟨htype, DataBuf.rest_skip_of_rest hrest, rfl, rfl, rfl, rfl, rfl, rfl, rfl, rfl,
      pair_of_bytes m.dir_range, rfl⟩
  · obtain ⟨hflags, hsnd⟩ := getNpos_snd p
    rw [hflags]
    exact ⟨rfl, hsnd⟩

/-- A place far out and below the ground, and a speed of more than one byte. -/
def farOut : Npos :=
  ⟨3, 0, 70000, 512, -9, 300, 0x1234, 90, 0x20, by decide, by decide, by decide, by decide,
    by decide, by decide, by decide⟩

/-- It is read with what follows it left. -/
theorem getNpos_spec_farOut :
    let r := getNpos (getint (DataBuf.ofBytes (farOut.bytes ++ [7]))).2
    r.2.rest = [7] ∧ r.2.overread = false ∧ r.1.pcn = 3 ∧ r.1.x = 70000 ∧ r.1.y = 512 ∧
      r.1.z = -9 ∧ r.1.mag = 300 :=
  have h := getNpos_spec.1 farOut [7]
  ⟨h.2.1, h.2.2.1, h.2.2.2.1, h.2.2.2.2.2.1, h.2.2.2.2.2.2.1, h.2.2.2.2.2.2.2.1,
    h.2.2.2.2.2.2.2.2.1⟩

end Zuckerserv

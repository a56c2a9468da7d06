import Zuckerserv.Fps.Protocol
import Zuckerserv.Lib.Machine
import Zuckerserv.Lib.Word32

/-!
# Recording and playing a demo

A demo is a file of packets, each with its time, its channel and its length in front. The playback
reads the time of a packet ahead, and waits for it; where the file ends, the playback does.

* `writedemo`, `recording` — the packets are written.
* `setupdemoplayback`, `readdemo` — the file is opened, and read on as the time goes by.
* `complete` — the packets that are in a file that has been cut off.
* `At`, `readLoop_spec` — where the reader is, and what one call does.
* `demo_replayed` — the packets are sent whose times have come.
-/

namespace Zuckerserv

namespace Demo

open Word32

/-- A packet that is recorded; its length is an `int`. -/
structure Packet where
  stamp : Int32
  chan : Int32
  data : List UInt8
  length_lt : data.length < 2 ^ 31

/-! ## The code -/

/-- The four bytes of an `int`, the lowest one first, by `lilswap`. -/
def bytesOf (n : Int32) : List UInt8 :=
  [toUchar n, toUchar (n >>> 8), toUchar (n >>> 16), toUchar (n >>> 24)]

/-- `DEMO_MAGIC`. -/
def DEMO_MAGIC : List UInt8 :=
  ['S', 'A', 'U', 'E', 'R', 'B', 'R', 'A', 'T', 'E', 'N', '_', 'D', 'E', 'M', 'O'].map
    fun c => UInt8.ofNat c.toNat

/-- `DEMO_VERSION`. -/
def DEMO_VERSION : Int32 := 1

/-- `PROTOCOL_VERSION`. -/
def PROTOCOL_VERSION : Int32 := 259

/-- The `demoheader` of a file. -/
def header : List UInt8 := DEMO_MAGIC ++ (bytesOf DEMO_VERSION ++ bytesOf PROTOCOL_VERSION)

/-- What stands behind the time of a packet. -/
def Packet.body (p : Packet) : List UInt8 :=
  bytesOf p.chan ++ (bytesOf (Int32.ofNat p.data.length) ++ p.data)

/-- `void writedemo(int chan, void *data, int len)`, onto the end of the file. -/
def writedemo (file : List UInt8) (p : Packet) : List UInt8 := file ++ (bytesOf p.stamp ++ p.body)

/-- The file with these packets. -/
def recording (ps : List Packet) : List UInt8 := ps.foldl writedemo header

/-- The state of the playback: what is left of the stream while there is one, and the packets that
have been sent, with their channels. -/
structure Playback where
  demoplayback : Option (List UInt8)
  nextplayback : Int32
  demomillis : Int32
  sent : List (Int32 × List UInt8)

/-- `read(&n, sizeof(n))` of an `int`, and `lilswap`; there is none where the stream is too
short. -/
def readInt : List UInt8 → Option (Int32 × List UInt8)
  | a :: b :: c :: d :: f =>
    some (ofUchar a ||| (ofUchar b <<< 8) ||| (ofUchar c <<< 16) ||| (ofUchar d <<< 24), f)
  | _ => none

/-- `read(buf, len)`. -/
def read (len : Nat) (f : List UInt8) : Option (List UInt8 × List UInt8) :=
  if len ≤ f.length then some (f.take len, f.drop len) else none

/-- The channel, the length and the data of a packet. No packet has been recorded with a negative
length. -/
def readPacket (f : List UInt8) : Option ((Int32 × List UInt8) × List UInt8) :=
  (readInt f).bind fun (chan, f) => (readInt f).bind fun (len, f) =>
    if len < 0 then none else (read len.toInt.toNat f).map fun (data, f) => ((chan, data), f)

/-- `DELETEP(demoplayback)`, or `enddemoplayback()`. -/
def Playback.stop (s : Playback) : Playback := { s with demoplayback := none }

/-- The time of the next packet is read, or the playback ends. -/
def Playback.readStamp (s : Playback) (f : List UInt8) : Playback :=
  match readInt f with
  | none => s.stop
  | some (stamp, f) => { s with demoplayback := some f, nextplayback := stamp }

/-- `void setupdemoplayback()`. -/
def setupdemoplayback (file : List UInt8) : Playback :=
  let s : Playback := ⟨none, 0, 0, []⟩
  match read 24 file with
  | none => s
  | some (hdr, f) =>
    if hdr.take 16 ≠ DEMO_MAGIC then s
    else
      match readInt (hdr.drop 16), readInt (hdr.drop 20) with
      | some (version, _), some (protocol, _) =>
        if version ≠ DEMO_VERSION ∨ protocol ≠ PROTOCOL_VERSION then s else s.readStamp f
      | _, _ => s

/-- The packet that is sent. -/
def packetOf (chan : Int32) (data : List UInt8) : Int32 × List UInt8 :=
  (chan, toUchar Msg.N_DEMOPACKET.code :: data)

/-- The loop of `readdemo`, over at most so many packets. -/
def readLoop : Nat → Playback → Playback
  | 0, s => s
  | fuel + 1, s =>
    match s.demoplayback with
    | none => s
    | some f =>
      if s.demomillis ≥ s.nextplayback then
        match readPacket f with
        | none => s.stop
        | some ((chan, data), f) =>
          readLoop fuel ({ s with sent := s.sent ++ [packetOf chan data] }.readStamp f)
      else s

/-- `void readdemo()`; every packet takes some bytes. -/
def readdemo (s : Playback) (curtime : Int32) : Playback :=
  match s.demoplayback with
  | none => s
  | some f => readLoop (f.length + 1) { s with demomillis := s.demomillis + curtime }

/-! ## What is meant -/

/-- The packet as it is sent. -/
def Packet.replay (p : Packet) : Int32 × List UInt8 := packetOf p.chan p.data

/-- The number of bytes of a packet in the file. -/
def Packet.size (p : Packet) : Nat := 12 + p.data.length

/-- The packets that are complete among the first `n` bytes. -/
def complete : Nat → List Packet → List Packet
  | _, [] => []
  | n, p :: ps => if p.size ≤ n then p :: complete (n - p.size) ps else []

/-- The times that the playback goes through, from the time `millis` on. -/
def times (millis : Int32) : List Int32 → List Int32
  | [] => []
  | curtime :: curtimes => (millis + curtime) :: times (millis + curtime) curtimes

/-- The playback has reached the time of a packet. -/
def Reached (ts : List Int32) (p : Packet) : Prop := ∃ t ∈ ts, p.stamp ≤ t

instance (ts : List Int32) (p : Packet) : Decidable (Reached ts p) :=
  inferInstanceAs (Decidable (∃ t ∈ ts, p.stamp ≤ t))

/-! ## Reading what was written -/

variable {p : Packet} {ps : List Packet} {n : Nat} {l f : List UInt8} {s : Playback}

theorem readInt_bytesOf (a : Int32) (f : List UInt8) : readInt (bytesOf a ++ f) = some (a, f) := by
  change some (_, f) = some (a, f)
  rw [word_of_bytes]

theorem readInt_eq_none (h : f.length < 4) : readInt f = none := by
  match f, h with
  | [], _ => rfl
  | [_], _ => rfl
  | [_, _], _ => rfl
  | [_, _, _], _ => rfl

theorem length_bytesOf (a : Int32) : (bytesOf a).length = 4 := rfl

/-- An integer that is there is read, even if the file is cut off behind it. -/
theorem readInt_take (a : Int32) (h : 4 ≤ n) :
    readInt ((bytesOf a ++ l).take n) = some (a, l.take (n - 4)) := by
  rw [List.take_append, length_bytesOf, List.take_of_length_le (length_bytesOf a ▸ h),
    readInt_bytesOf]

theorem readInt_take_eq_none (h : n < 4) : readInt (f.take n) = none :=
  readInt_eq_none (Nat.lt_of_le_of_lt (List.length_take_le n f) h)

theorem read_take (d : List UInt8) (h : d.length ≤ n) :
    read d.length ((d ++ l).take n) = some (d, l.take (n - d.length)) := by
  have htake : (d ++ l).take n = d ++ l.take (n - d.length) := by
    rw [List.take_append, List.take_of_length_le h]
  rw [read, htake, if_pos (by rw [List.length_append]; omega), List.take_left, List.drop_left]

theorem read_take_eq_none {k : Nat} (h : n < k) : read k (f.take n) = none := by
  have hlength := List.length_take_le n f
  rw [read, if_neg (by omega)]

theorem toInt_length (p : Packet) : (Int32.ofNat p.data.length).toInt = p.data.length :=
  Int32.toInt_ofNat_of_lt p.length_lt

theorem body_append (p : Packet) (l : List UInt8) : p.body ++ l =
    bytesOf p.chan ++ (bytesOf (Int32.ofNat p.data.length) ++ (p.data ++ l)) := by
  rw [Packet.body, List.append_assoc, List.append_assoc]

/-- The length that has been read. -/
theorem read_length (p : Packet) (f : List UInt8) :
    (if Int32.ofNat p.data.length < 0 then none else
      (read (Int32.ofNat p.data.length).toInt.toNat f).map fun (data, f) => ((p.chan, data), f)) =
      (read p.data.length f).map fun (data, f) => ((p.chan, data), f) := by
  rw [if_neg, toInt_length, Int.toNat_natCast]
  rw [Int32.lt_iff_toInt_lt, toInt_length]
  exact Int.not_lt.mpr (Int.natCast_nonneg _)

/-- A packet that is complete is read. -/
theorem readPacket_take (h : 8 + p.data.length ≤ n) :
    readPacket ((p.body ++ l).take n) =
      some ((p.chan, p.data), l.take (n - (8 + p.data.length))) := by
  have hrest : n - 4 - 4 - p.data.length = n - (8 + p.data.length) := by omega
  rw [body_append, readPacket, readInt_take _ (by omega), Option.bind_some]
  dsimp only
  rw [readInt_take _ (by omega), Option.bind_some]
  dsimp only
  rw [read_length, read_take _ (by omega), hrest]
  rfl

/-- A packet that is not complete is none. -/
theorem readPacket_take_eq_none (h : n < 8 + p.data.length) :
    readPacket ((p.body ++ l).take n) = none := by
  rw [body_append, readPacket]
  by_cases hchan : n < 4
  · rw [readInt_take_eq_none hchan]
    rfl
  · rw [readInt_take _ (Nat.not_lt.mp hchan), Option.bind_some]
    dsimp only
    by_cases hlen : n - 4 < 4
    · rw [readInt_take_eq_none hlen]
      rfl
    · rw [readInt_take _ (Nat.not_lt.mp hlen), Option.bind_some]
      dsimp only
      rw [read_length, read_take_eq_none (by omega)]
      rfl

/-! ## Where the reader is -/

/-- The bytes of the packets. -/
def bytes (ps : List Packet) : List UInt8 := ps.flatMap fun p => bytesOf p.stamp ++ p.body

theorem recording_eq (ps : List Packet) : recording ps = header ++ bytes ps := by
  have hfoldl (file : List UInt8) : ps.foldl writedemo file = file ++ bytes ps := by
    induction ps generalizing file with
    | nil => exact (List.append_nil file).symm
    | cons p ps ih =>
      rw [List.foldl_cons, ih, writedemo, bytes, bytes, List.flatMap_cons, List.append_assoc]
  exact hfoldl header

/-- The reader waits for the first of the packets, whose time it has read, with `n` bytes left; or
the playback has ended. -/
def At : List Packet → Nat → Playback → Prop
  | [], _, s => s.demoplayback = none
  | p :: ps, n, s =>
    s.demoplayback = some ((p.body ++ bytes ps).take n) ∧ s.nextplayback = p.stamp

/-- The packets that are still to come. -/
def left : List Packet → Nat → List Packet
  | [], _ => []
  | p :: ps, n => complete (n + 4) (p :: ps)

theorem complete_sublist (n : Nat) (ps : List Packet) : (complete n ps).Sublist ps := by
  induction ps generalizing n with
  | nil => exact List.Sublist.refl _
  | cons p ps ih =>
    rw [complete]
    split
    · exact (ih _).cons_cons p
    · exact List.nil_sublist _

theorem left_sublist (n : Nat) (ps : List Packet) : (left ps n).Sublist ps := by
  cases ps with
  | nil => exact List.Sublist.refl _
  | cons p ps => exact complete_sublist _ _

/-- Behind a packet, the time of the next one is read, if it is there. -/
theorem at_readStamp (s : Playback) (n : Nat) (ps : List Packet) :
    ∃ ps' n', ps'.IsSuffix ps ∧ left ps' n' = complete n ps ∧
      At ps' n' (s.readStamp ((bytes ps).take n)) := by
  cases ps with
  | nil =>
    refine ⟨[], 0, List.suffix_refl _, rfl, ?_⟩
    rw [bytes, List.flatMap_nil, List.take_nil]
    rfl
  | cons p ps =>
    have hbytes : bytes (p :: ps) = bytesOf p.stamp ++ (p.body ++ bytes ps) := by
      rw [bytes, bytes, List.flatMap_cons, List.append_assoc]
    by_cases hn : n < 4
    · refine ⟨[], 0, List.nil_suffix, ?_, ?_⟩
      · rw [complete, if_neg (by rw [Packet.size]; omega), left]
      · rw [Playback.readStamp, readInt_take_eq_none hn]
        rfl
    · refine ⟨p :: ps, n - 4, List.suffix_refl _, ?_, ?_⟩
      · rw [left, Nat.sub_add_cancel (Nat.not_lt.mp hn)]
      · rw [Playback.readStamp, hbytes, readInt_take _ (Nat.not_lt.mp hn)]
        exact ⟨rfl, rfl⟩

theorem readStamp_sent (s : Playback) (f : List UInt8) : (s.readStamp f).sent = s.sent := by
  rw [Playback.readStamp]
  split <;> rfl

theorem readStamp_demomillis (s : Playback) (f : List UInt8) :
    (s.readStamp f).demomillis = s.demomillis := by
  rw [Playback.readStamp]
  split <;> rfl

/-! ## One call -/

theorem length_take_body (l : List UInt8) (h : 8 + p.data.length ≤ n) :
    ((p.body ++ l).take n).length =
      8 + p.data.length + (l.take (n - (8 + p.data.length))).length := by
  have hbody : p.body.length = 8 + p.data.length := by
    rw [Packet.body, List.length_append, List.length_append, length_bytesOf, length_bytesOf]
    omega
  rw [List.take_append, List.take_of_length_le (hbody ▸ h), List.length_append, hbody]

/-- What one call does: packets are sent whose times have come, and the next one has to wait. -/
structure Advanced (ps : List Packet) (n : Nat) (s s' : Playback) (done : List Packet)
    (ps' : List Packet) (n' : Nat) : Prop where
  suffix : ps'.IsSuffix ps
  left : Demo.left ps n = done ++ Demo.left ps' n'
  pos : At ps' n' s'
  sent : s'.sent = s.sent ++ done.map Packet.replay
  demomillis : s'.demomillis = s.demomillis
  due : ∀ p ∈ done, p.stamp ≤ s.demomillis
  waits : ∀ p ∈ ps'.head?, ¬ p.stamp ≤ s.demomillis

/-- Where the playback has ended, nothing is done. -/
theorem advanced_nil (h : At [] n s) : Advanced [] n s s [] [] n where
  suffix := List.suffix_refl _
  left := rfl
  pos := h
  sent := (List.append_nil _).symm
  demomillis := rfl
  due _ hp := absurd hp List.not_mem_nil
  waits _ hp := absurd hp nofun

/-- What is left of the stream behind a packet is shorter. -/
theorem readStamp_shorter (h : (s.readStamp l).demoplayback = some f) : f.length < l.length := by
  rw [Playback.readStamp] at h
  match l, h with
  | a :: b :: c :: d :: l, h =>
    cases h
    simp only [List.length_cons]
    omega

/-- The loop sends packets until one has to wait. -/
theorem readLoop_spec {fuel : Nat} (h : At ps n s)
    (hfuel : ∀ f, s.demoplayback = some f → f.length < fuel) :
    ∃ done ps' n', Advanced ps n s (readLoop fuel s) done ps' n' := by
  induction fuel generalizing ps n s with
  | zero =>
    cases ps with
    | nil => exact ⟨[], [], n, advanced_nil h⟩
    | cons p ps => exact absurd (hfuel _ h.1) (Nat.not_lt_zero _)
  | succ fuel ih =>
    rw [readLoop]
    cases ps with
    | nil =>
      have hnone : s.demoplayback = none := h
      rw [hnone]
      exact ⟨[], [], n, advanced_nil h⟩
    | cons p ps =>
      obtain ⟨hstream, hstamp⟩ := h
      rw [hstream]
      dsimp only
      split
      · next hdue =>
        rw [hstamp] at hdue
        by_cases hn : 8 + p.data.length ≤ n
        · rw [readPacket_take hn]
          dsimp only
          obtain ⟨ps₁, n₁, hsuffix, hleft, hat⟩ := at_readStamp
            { s with
              demoplayback := some ((p.body ++ bytes ps).take n)
              sent := s.sent ++ [packetOf p.chan p.data] } (n - (8 + p.data.length)) ps
          have hlength := hfuel _ hstream
          have hnext := length_take_body (bytes ps) hn
          obtain ⟨done, ps', n', hdone⟩ := ih hat fun f hf => by
            have := readStamp_shorter hf
            omega
          have hsent := hdone.sent
          have hmillis := hdone.demomillis
          rw [readStamp_sent] at hsent
          rw [readStamp_demomillis] at hmillis
          refine ⟨p :: done, ps', n', ?_⟩
          refine ⟨(hdone.suffix.trans hsuffix).trans (List.suffix_cons p ps), ?_, hdone.pos, ?_,
            hmillis, ?_, ?_⟩
          · have hsize : n + 4 - p.size = n - (8 + p.data.length) := by
              rw [Packet.size]
              omega
            change complete (n + 4) (p :: ps) = _
            rw [complete, if_pos (by rw [Packet.size]; omega), hsize, ← hleft, hdone.left]
            rfl
          · rw [hsent, List.map_cons, List.append_assoc]
            rfl
          · intro q hq
            rcases List.mem_cons.mp hq with rfl | hq
            · exact hdue
            · have := hdone.due q hq
              rwa [readStamp_demomillis] at this
          · have := hdone.waits
            rwa [readStamp_demomillis] at this
        · rw [readPacket_take_eq_none (Nat.not_le.mp hn)]
          refine ⟨[], [], 0, List.nil_suffix, ?_, rfl, (List.append_nil _).symm, rfl,
            fun _ hp => absurd hp List.not_mem_nil, fun _ hp => absurd hp nofun⟩
          change complete (n + 4) (p :: ps) = []
          rw [complete, if_neg (by rw [Packet.size]; omega)]
      · next hwait =>
        refine ⟨[], p :: ps, n, List.suffix_refl _, rfl, ⟨hstream, hstamp⟩,
          (List.append_nil _).symm, rfl, fun _ hp => absurd hp List.not_mem_nil, ?_⟩
        intro q hq
        cases hq
        rw [← hstamp]
        exact hwait

/-! ## All calls -/

/-- The reader is somewhere in the packets: what has been reached has been sent, and what comes has
not been reached. -/
structure Replaying (ps : List Packet) (n : Nat) (ts : List Int32) (millis : Int32) (s : Playback)
    (done ps' : List Packet) (n' : Nat) : Prop where
  suffix : ps'.IsSuffix ps
  complete : Demo.complete n ps = done ++ left ps' n'
  pos : At ps' n' s
  sent : s.sent = done.map Packet.replay
  clock : s.demoplayback ≠ none → s.demomillis = millis
  due : ∀ p ∈ done, Reached ts p
  waits : ∀ p ∈ ps', ¬ Reached ts p

/-- One call, with the time that has come. -/
theorem readdemo_spec {ts : List Int32} {millis : Int32} {done ps' : List Packet} {n' : Nat}
    (hsorted : ps.Pairwise (·.stamp ≤ ·.stamp)) (h : Replaying ps n ts millis s done ps' n')
    (curtime : Int32) : ∃ done₁ ps₁ n₁,
      Replaying ps n (ts ++ [millis + curtime]) (millis + curtime) (readdemo s curtime)
        done₁ ps₁ n₁ := by
  have hreached {p : Packet} (hp : Reached ts p) : Reached (ts ++ [millis + curtime]) p := by
    obtain ⟨t, ht, hle⟩ := hp
    exact ⟨t, List.mem_append_left _ ht, hle⟩
  cases hstream : s.demoplayback with
  | none =>
    have hnil : ps' = [] := by
      cases ps' with
      | nil => rfl
      | cons p ps' => exact absurd (h.pos.1.symm.trans hstream) nofun
    refine ⟨done, [], 0, List.nil_suffix, ?_, ?_, ?_, ?_, fun p hp => hreached (h.due p hp),
      fun _ hp => absurd hp List.not_mem_nil⟩
    · have hcomplete := h.complete
      rw [hnil] at hcomplete
      exact hcomplete
    all_goals rw [readdemo, hstream]
    · exact hstream
    · exact h.sent
    · exact fun hne => absurd hstream hne
  | some f =>
    have hat : At ps' n' { s with demomillis := s.demomillis + curtime } := by
      have hpos := h.pos
      cases ps' with
      | nil => exact hpos
      | cons p ps' => exact hpos
    have hmillis : s.demomillis = millis := h.clock (by rw [hstream]; exact nofun)
    have hfuel (f' : List UInt8) (hf : s.demoplayback = some f') : f'.length < f.length + 1 := by
      cases hstream.symm.trans hf
      exact Nat.lt_succ_self _
    obtain ⟨done', ps₁, n₁, hadvanced⟩ := readLoop_spec hat hfuel
    have hcall : readdemo s curtime =
        readLoop (f.length + 1) { s with demomillis := s.demomillis + curtime } := by
      unfold readdemo
      split
      · next hnone => exact absurd (hnone.symm.trans hstream) nofun
      · next f' hf =>
        cases hf.symm.trans hstream
        rfl
    rw [hcall]
    refine ⟨done ++ done', ps₁, n₁, hadvanced.suffix.trans h.suffix, ?_, hadvanced.pos, ?_, ?_,
      ?_, ?_⟩
    · rw [h.complete, hadvanced.left, List.append_assoc]
    · rw [hadvanced.sent, h.sent, List.map_append]
    · intro _
      rw [hadvanced.demomillis, hmillis]
    · intro p hp
      rcases List.mem_append.mp hp with hp | hp
      · exact hreached (h.due p hp)
      · refine ⟨millis + curtime, List.mem_append_right _ List.mem_cons_self, ?_⟩
        rw [← hmillis]
        exact hadvanced.due p hp
    · rintro p hp ⟨t, ht, hle⟩
      rcases List.mem_append.mp ht with ht | ht
      · exact h.waits p (hadvanced.suffix.subset hp) ⟨t, ht, hle⟩
      · rw [List.mem_singleton.mp ht, ← hmillis] at hle
        -- The first packet has to wait, and no other one comes earlier.
        cases hps : ps₁ with
        | nil =>
          rw [hps] at hp
          exact absurd hp List.not_mem_nil
        | cons q rest =>
          have hfirst : ¬ q.stamp ≤ s.demomillis + curtime :=
            hadvanced.waits q (by rw [hps]; rfl)
          have hrest : (q :: rest).Pairwise (·.stamp ≤ ·.stamp) := by
            rw [← hps]
            exact hsorted.sublist (hadvanced.suffix.trans h.suffix).sublist
          rw [hps] at hp
          rcases List.mem_cons.mp hp with rfl | hp
          · exact hfirst hle
          · exact hfirst (Int32.le_trans ((List.pairwise_cons.mp hrest).1 p hp) hle)

theorem complete_zero (ps : List Packet) : complete 0 ps = [] := by
  cases ps with
  | nil => rfl
  | cons p ps => rw [complete, if_neg (by rw [Packet.size]; omega)]

/-- The header of a recording is the one that is expected. -/
theorem setup_eq (h : 24 ≤ n) : setupdemoplayback ((header ++ l).take n) =
    Playback.readStamp ⟨none, 0, 0, []⟩ (l.take (n - 24)) := by
  have hread : read 24 ((header ++ l).take n) = some (header, l.take (n - 24)) :=
    read_take header h
  have hmagic : header.take 16 = DEMO_MAGIC := rfl
  have hversion : readInt (header.drop 16) = some (DEMO_VERSION, bytesOf PROTOCOL_VERSION) :=
    readInt_bytesOf DEMO_VERSION _
  have hprotocol : readInt (header.drop 20) = some (PROTOCOL_VERSION, []) :=
    readInt_bytesOf PROTOCOL_VERSION []
  unfold setupdemoplayback
  rw [hread]
  dsimp only
  rw [if_neg (not_not.mpr hmagic), hversion, hprotocol]
  dsimp only
  rw [if_neg (not_or.mpr ⟨not_not.mpr rfl, not_not.mpr rfl⟩)]

/-- The playback is set up. -/
theorem setup_spec (n : Nat) (ps : List Packet) : ∃ ps' n',
    Replaying ps (n - 24) [] 0 (setupdemoplayback ((recording ps).take n)) [] ps' n' := by
  rw [recording_eq]
  have hnone (p : Packet) : ¬ Reached [] p := fun ⟨_, ht, _⟩ => absurd ht List.not_mem_nil
  by_cases hn : 24 ≤ n
  · rw [setup_eq hn]
    obtain ⟨ps', n', hsuffix, hleft, hat⟩ := at_readStamp ⟨none, 0, 0, []⟩ (n - 24) ps
    exact ⟨ps', n', hsuffix, hleft.symm, hat, readStamp_sent _ _,
      fun _ => readStamp_demomillis _ _, fun _ hp => absurd hp List.not_mem_nil,
      fun p _ => hnone p⟩
  · have hfile : setupdemoplayback ((header ++ bytes ps).take n) = ⟨none, 0, 0, []⟩ := by
      unfold setupdemoplayback
      rw [read_take_eq_none (Nat.not_le.mp hn)]
    have hzero : n - 24 = 0 := by omega
    rw [hfile, hzero]
    exact ⟨[], 0, List.nil_suffix, complete_zero ps, rfl, rfl, fun hne => absurd rfl hne,
      fun _ hp => absurd hp List.not_mem_nil, fun p _ => hnone p⟩

/-- The state after some calls. -/
theorem replaying_run {ts : List Int32} {millis : Int32} {done ps' : List Packet} {n' : Nat}
    (hsorted : ps.Pairwise (·.stamp ≤ ·.stamp)) (h : Replaying ps n ts millis s done ps' n')
    (curtimes : List Int32) : ∃ millis' done₁ ps₁ n₁,
      Replaying ps n (ts ++ times millis curtimes) millis' (Machine.run readdemo s curtimes)
        done₁ ps₁ n₁ := by
  induction curtimes generalizing ts millis s done ps' n' with
  | nil =>
    rw [times, List.append_nil]
    exact ⟨millis, done, ps', n', h⟩
  | cons curtime curtimes ih =>
    obtain ⟨done₁, ps₁, n₁, h₁⟩ := readdemo_spec hsorted h curtime
    have hnext := ih h₁
    rw [List.append_assoc] at hnext
    exact hnext

/-- What is complete is read first. -/
theorem complete_prefix (n : Nat) (ps : List Packet) : (complete n ps).IsPrefix ps := by
  induction ps generalizing n with
  | nil => exact List.prefix_refl _
  | cons p ps ih =>
    rw [complete]
    split
    · exact (List.prefix_cons_inj p).mpr (ih _)
    · exact List.nil_prefix

/-- Where nothing is cut off, all packets are complete. -/
theorem complete_of_le (h : (bytes ps).length ≤ n) : complete n ps = ps := by
  induction ps generalizing n with
  | nil => rfl
  | cons p ps ih =>
    have hlength : (bytes (p :: ps)).length = p.size + (bytes ps).length := by
      rw [bytes, List.flatMap_cons, List.length_append, Packet.size, Packet.body]
      simp only [List.length_append, length_bytesOf, bytes]
      omega
    rw [hlength] at h
    rw [complete, if_pos (by omega), ih (by omega)]

/-- **Replay**: of a demo that has been cut off anywhere, those packets are sent that are complete
and whose times the playback has reached, in their order, each of them once; and when all times
are reached, the playback has ended. Where nothing has been cut off, all packets are complete. -/
theorem demo_replayed (ps : List Packet) (hsorted : ps.Pairwise (·.stamp ≤ ·.stamp)) (n : Nat)
    (curtimes : List Int32) :
    let s := Machine.run readdemo (setupdemoplayback ((recording ps).take n)) curtimes
    s.sent = ((complete (n - 24) ps).filter (Reached (times 0 curtimes))).map Packet.replay ∧
      (complete (n - 24) ps).IsPrefix ps ∧
      ((recording ps).length ≤ n → complete (n - 24) ps = ps) ∧
      ((∀ p ∈ ps, Reached (times 0 curtimes) p) → s.demoplayback = none) := by
  intro s
  obtain ⟨ps₀, n₀, hstart⟩ := setup_spec n ps
  obtain ⟨millis, done, ps', n', h⟩ := replaying_run hsorted hstart curtimes
  rw [List.nil_append] at h
  refine ⟨?_, complete_prefix _ _, fun hlength => ?_, fun hall => ?_⟩
  · have hdone : done.filter (Reached (times 0 curtimes)) = done :=
      List.filter_eq_self.mpr fun p hp => decide_eq_true (h.due p hp)
    have hleft : (left ps' n').filter (Reached (times 0 curtimes)) = [] :=
      List.filter_eq_nil_iff.mpr fun p hp hreached =>
        h.waits p ((left_sublist n' ps').subset hp) (of_decide_eq_true hreached)
    rw [h.complete, List.filter_append, hdone, hleft, List.append_nil]
    exact h.sent
  · have hheader : header.length = 24 := rfl
    rw [recording_eq, List.length_append, hheader] at hlength
    exact complete_of_le (by omega)
  · have hpos := h.pos
    cases ps' with
    | nil => exact hpos
    | cons p ps' =>
      have hmem : p ∈ ps := h.suffix.subset List.mem_cons_self
      exact absurd (hall p hmem) (h.waits p List.mem_cons_self)

/-- Two packets, the second one of which is cut off. -/
theorem demo_replayed_two :
    (Machine.run readdemo (setupdemoplayback ((recording
      [⟨0, 1, [7], by decide⟩, ⟨40, 1, [8, 9], by decide⟩]).take 40)) [33, 33]).sent =
        ((complete (40 - 24) [⟨0, 1, [7], by decide⟩, ⟨40, 1, [8, 9], by decide⟩]).filter
          (Reached (times 0 [33, 33]))).map Packet.replay :=
  (demo_replayed [⟨0, 1, [7], by decide⟩, ⟨40, 1, [8, 9], by decide⟩] (by decide) 40 [33, 33]).1

end Demo

end Zuckerserv

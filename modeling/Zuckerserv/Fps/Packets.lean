import Zuckerserv.Fps.PacketFields
import Zuckerserv.Fps.Protocol

/-!
# The messages of a packet

`parsepacket` takes a packet of a connected client apart: it reads the number of a message, asks
`checktype` whether it is let in, reads the fields and goes on where it has stopped. It "has to parse
exactly each byte of the packet": a case that reads too much or too little takes the rest of the
packet for other messages.

* `msgfilter`, `msgsizelookup`, `fields` — the messages, and what each is made of.
* `checktype`, `accept` — what is let in.
* `parse` — the loop over a packet.
* `dispatch` — what should come of messages that are sent one after the other.
* `parse_messages` — the loop takes a packet apart at the messages that it was put together from.
* `parse_messages_iff` — it does so exactly when the messages of a mode come while the mode is on.
* `parse_untrusted` — what holds of the loop whatever the bytes are.
-/

namespace Zuckerserv

/-- The mode that a message tells of the bases, the flags or the tokens of. -/
def Msg.mode : Msg → Option Packets.Smode
  | .N_BASES => some .capturemode
  | .N_INITFLAGS => some .ctfmode
  | .N_INITTOKENS => some .collectmode
  | _ => none

namespace Packets

open Msg

/-- `msgmask`: a later class of a message replaces an earlier one. -/
def msgmask (m : Msg) : Nat :=
  if m = .N_POS then 4
  else if m ∈ ([.N_EDITENT, .N_EDITF, .N_EDITT, .N_EDITM, .N_FLIP, .N_COPY, .N_PASTE, .N_ROTATE,
      .N_REPLACE, .N_DELCUBE, .N_EDITVAR] : List Msg) then 3
  else if m ∈ ([.N_REMIP, .N_NEWMAP, .N_GETMAP, .N_SENDMAP, .N_CLIPBOARD] : List Msg) then 2
  else if m ∈ ([.N_CONNECT, .N_SERVINFO, .N_INITCLIENT, .N_WELCOME, .N_MAPCHANGE, .N_SERVMSG,
      .N_DAMAGE, .N_HITPUSH, .N_SHOTFX, .N_EXPLODEFX, .N_DIED, .N_SPAWNSTATE, .N_FORCEDEATH,
      .N_TEAMINFO, .N_ITEMACC, .N_ITEMSPAWN, .N_TIMEUP, .N_CDIS, .N_CURRENTMASTER, .N_PONG,
      .N_RESUME, .N_BASESCORE, .N_BASEINFO, .N_BASEREGEN, .N_ANNOUNCE, .N_SENDDEMOLIST,
      .N_SENDDEMO, .N_DEMOPLAYBACK, .N_SENDMAP, .N_DROPFLAG, .N_SCOREFLAG, .N_RETURNFLAG,
      .N_RESETFLAG, .N_INVISFLAG, .N_CLIENT, .N_AUTHCHAL, .N_INITAI, .N_EXPIRETOKENS,
      .N_DROPTOKENS, .N_STEALTOKENS, .N_DEMOPACKET] : List Msg) then 1
  else 0

/-- `msgfilter[type]`. -/
def msgfilter (type : Int32) : Nat := (Msg.ofCode type).elim 0 msgmask

/-- `msgsizes`: how many numbers a message is, with its own; 0 where that is not fixed. -/
def msgsizes : List (Msg × Int) :=
  [(.N_CONNECT, 0), (.N_SERVINFO, 0), (.N_WELCOME, 1), (.N_INITCLIENT, 0), (.N_POS, 0),
    (.N_TEXT, 0), (.N_SOUND, 2), (.N_CDIS, 2), (.N_SHOOT, 0), (.N_EXPLODE, 0), (.N_SUICIDE, 1),
    (.N_DIED, 5), (.N_DAMAGE, 6), (.N_HITPUSH, 7), (.N_SHOTFX, 10), (.N_EXPLODEFX, 4),
    (.N_TRYSPAWN, 1), (.N_SPAWNSTATE, 14), (.N_SPAWN, 3), (.N_FORCEDEATH, 2), (.N_GUNSELECT, 2),
    (.N_TAUNT, 1), (.N_MAPCHANGE, 0), (.N_MAPVOTE, 0), (.N_TEAMINFO, 0), (.N_ITEMSPAWN, 2),
    (.N_ITEMPICKUP, 2), (.N_ITEMACC, 3), (.N_PING, 2), (.N_PONG, 2), (.N_CLIENTPING, 2),
    (.N_TIMEUP, 2), (.N_FORCEINTERMISSION, 1), (.N_SERVMSG, 0), (.N_ITEMLIST, 0), (.N_RESUME, 0),
    (.N_EDITMODE, 2), (.N_EDITENT, 11), (.N_EDITF, 16), (.N_EDITT, 16), (.N_EDITM, 16),
    (.N_FLIP, 14), (.N_COPY, 14), (.N_PASTE, 14), (.N_ROTATE, 15), (.N_REPLACE, 17),
    (.N_DELCUBE, 14), (.N_REMIP, 1), (.N_NEWMAP, 2), (.N_GETMAP, 1), (.N_SENDMAP, 0),
    (.N_EDITVAR, 0), (.N_MASTERMODE, 2), (.N_KICK, 0), (.N_CLEARBANS, 1), (.N_CURRENTMASTER, 0),
    (.N_SPECTATOR, 3), (.N_SETMASTER, 0), (.N_SETTEAM, 0), (.N_BASES, 0), (.N_BASEINFO, 0),
    (.N_BASESCORE, 0), (.N_REPAMMO, 1), (.N_BASEREGEN, 6), (.N_ANNOUNCE, 2), (.N_LISTDEMOS, 1),
    (.N_SENDDEMOLIST, 0), (.N_GETDEMO, 2), (.N_SENDDEMO, 0), (.N_DEMOPLAYBACK, 3),
    (.N_RECORDDEMO, 2), (.N_STOPDEMO, 1), (.N_CLEARDEMOS, 2), (.N_TAKEFLAG, 3), (.N_RETURNFLAG, 4),
    (.N_RESETFLAG, 6), (.N_INVISFLAG, 3), (.N_TRYDROPFLAG, 1), (.N_DROPFLAG, 7),
    (.N_SCOREFLAG, 10), (.N_INITFLAGS, 0), (.N_SAYTEAM, 0), (.N_CLIENT, 0), (.N_AUTHTRY, 0),
    (.N_AUTHKICK, 0), (.N_AUTHCHAL, 0), (.N_AUTHANS, 0), (.N_REQAUTH, 0), (.N_PAUSEGAME, 0),
    (.N_GAMESPEED, 0), (.N_ADDBOT, 2), (.N_DELBOT, 1), (.N_INITAI, 0), (.N_FROMAI, 2),
    (.N_BOTLIMIT, 2), (.N_BOTBALANCE, 2), (.N_MAPCRC, 0), (.N_CHECKMAPS, 1), (.N_SWITCHNAME, 0),
    (.N_SWITCHMODEL, 2), (.N_SWITCHTEAM, 0), (.N_INITTOKENS, 0), (.N_TAKETOKEN, 2),
    (.N_EXPIRETOKENS, 0), (.N_DROPTOKENS, 0), (.N_DEPOSITTOKENS, 2), (.N_STEALTOKENS, 0),
    (.N_SERVCMD, 0), (.N_DEMOPACKET, 0)]

def msgsizelookup (m : Msg) : Int := (msgsizes.lookup m).getD (-1)

def ints (n : Nat) : List Field := List.replicate n .int

/-- What the case of a message reads; `none` where it disconnects for `size<=0`. -/
def fields (smode : Option Smode) : Msg → Option (List Field)
  | .N_POS => some [.npos]
  | .N_TELEPORT => some (ints 3)
  | .N_JUMPPAD => some (ints 2)
  | .N_FROMAI | .N_EDITMODE | .N_GUNSELECT | .N_ITEMPICKUP | .N_SWITCHMODEL | .N_PING
  | .N_CLIENTPING | .N_MASTERMODE | .N_RECORDDEMO | .N_CLEARDEMOS | .N_GETDEMO | .N_NEWMAP
  | .N_ADDBOT | .N_BOTLIMIT | .N_BOTBALANCE | .N_PAUSEGAME | .N_GAMESPEED | .N_TAKETOKEN
  | .N_DEPOSITTOKENS => some (ints 1)
  | .N_SPAWN | .N_SPECTATOR | .N_TAKEFLAG => some (ints 2)
  | .N_CHECKMAPS | .N_TRYSPAWN | .N_SUICIDE | .N_CLEARBANS | .N_FORCEINTERMISSION | .N_STOPDEMO
  | .N_LISTDEMOS | .N_GETMAP | .N_DELBOT | .N_REPAMMO | .N_TRYDROPFLAG => some []
  | .N_MAPCRC | .N_MAPVOTE | .N_MAPCHANGE => some [.str Text.MAXTRANS, .int]
  | .N_SHOOT => some (ints 8 ++ [.rows 7 true])
  | .N_EXPLODE => some (ints 3 ++ [.rows 7 true])
  | .N_TEXT | .N_SAYTEAM | .N_SWITCHNAME | .N_SWITCHTEAM | .N_SERVCMD => some [.str Text.MAXTRANS]
  | .N_ITEMLIST => some [.items]
  | .N_EDITENT => some (ints 10)
  | .N_EDITVAR => some [.editvar]
  | .N_KICK | .N_SETTEAM => some [.int, .str Text.MAXTRANS]
  | .N_SETMASTER => some [.int, .int, .str Text.MAXTRANS]
  | .N_AUTHTRY => some [.str Text.MAXSTRLEN, .str Text.MAXSTRLEN]
  | .N_AUTHKICK => some [.str Text.MAXSTRLEN, .str Text.MAXSTRLEN, .int, .str Text.MAXTRANS]
  | .N_AUTHANS => some [.str Text.MAXSTRLEN, .int, .str Text.MAXSTRLEN]
  | .N_CLIPBOARD => some [.clipboard]
  | .N_CONNECT => some [.str Text.MAXTRANS, .str Text.MAXTRANS, .int]
  | .N_BASES => some (if smode = some .capturemode then [.rows 4 false] else [])
  | .N_INITFLAGS => some (if smode = some .ctfmode then [.rows 4 false] else [])
  | .N_INITTOKENS => some (if smode = some .collectmode then [.rows 4 false] else [])
  | m => if msgsizelookup m ≤ 0 then none else some (ints (msgsizelookup m - 1).toNat)

/-- The messages whose cases ask `event_editpacket`, and leave the packet when it says so. -/
def editing : List Msg :=
  [.N_EDITENT, .N_EDITVAR, .N_NEWMAP, .N_REMIP, .N_EDITF, .N_EDITT, .N_EDITM, .N_FLIP, .N_ROTATE,
    .N_REPLACE, .N_DELCUBE]

/-- How the loop over a packet ends. -/
inductive Ending
  | done
  /-- `disconnect_client(sender, DISC_MSGERR)`, or `unknown_packet` of the anti-cheat. -/
  | msgerr
  /-- `disconnect_client(sender, DISC_OVERFLOW)`. -/
  | overflow
  | editpacket
  deriving DecidableEq, Repr

/-- `checktype` for a connected client; the counter is `ci->overflow`. -/
def checktype (isLocal : Bool) (v : View) (overflow : Nat) (type : Int32) : Int32 × Nat :=
  let counted := (if 200 ≤ overflow + 1 then -2 else type, overflow + 1)
  if isLocal then (type, overflow)
  else if msgfilter type = 1 then (-1, overflow)
  else if msgfilter type = 2 then if v.edit then counted else (-1, overflow)
  else if msgfilter type = 3 then (if v.edit then type else -1, overflow)
  else if msgfilter type = 4 then (type, overflow)
  else counted

/-- The case that the loop goes to. -/
def accept (isLocal : Bool) (v : View) (overflow : Nat) (type : Int32) :
    Except Ending (Msg × List Field) × Nat :=
  let (type, overflow) := checktype isLocal v overflow type
  (if type = -2 then .error .overflow
    else match Msg.ofCode type with
      | none => .error .msgerr
      | some m =>
        match fields v.smode m with
        | none => .error .msgerr
        | some fs => .ok (m, fs), overflow)

/-- What the loop has done: the messages it went to the cases of, each with its bytes. -/
structure Run (σ : Type) where
  dispatched : List (Msg × List UInt8)
  ending : Ending
  state : σ
  overflow : Nat

/-- A message before the others. -/
def Run.cons {σ : Type} (x : Msg × List UInt8) (run : Run σ) : Run σ :=
  { run with dispatched := x :: run.dispatched }

theorem remaining_getint_lt {p : DataBuf} (h : 0 < p.remaining) :
    (getint p).2.remaining < p.remaining := by
  have hpos := intSize_pos p.rest
  rw [remaining_getint]
  omega

def Field.roomy : Field → Bool
  | .str len => 1 ≤ len
  | _ => true

theorem roomy_fields {smode : Option Smode} {m : Msg} {fs : List Field}
    (h : fields smode m = some fs) : Roomy fs := by
  have hall : (fields smode m).all (·.all Field.roomy) = true := by
    cases m <;> first | rfl | (simp only [fields]; split <;> rfl)
  rw [h, Option.all_some, List.all_eq_true] at hall
  intro len hlen
  simpa [Field.roomy] using hall _ hlen

/-- In its own mode, or without one, a message is read as its client has written it. -/
theorem fields_eq {smode : Option Smode} {m : Msg}
    (h : ∀ mode, m.mode = some mode → smode = some mode) : fields smode m = fields m.mode m := by
  cases m <;> first | rfl | rw [h _ rfl]; rfl

section

variable {σ : Type} (isLocal : Bool) (view : σ → View)
  (handle : σ → Msg → List UInt8 → σ × Bool)

variable {v : View} {overflow overflow' : Nat} {type : Int32} {m : Msg} {fs : List Field}

theorem checktype_fst (v : View) (overflow : Nat) (type : Int32) :
    (checktype isLocal v overflow type).1 = type ∨ (checktype isLocal v overflow type).1 = -1 ∨
      (checktype isLocal v overflow type).1 = -2 := by
  unfold checktype
  dsimp only
  split_ifs <;> simp

theorem accept_ok (h : accept isLocal v overflow type = (.ok (m, fs), overflow')) :
    checktype isLocal v overflow type = (type, overflow') ∧ Msg.ofCode type = some m ∧
      fields v.smode m = some fs := by
  have htype := checktype_fst isLocal v overflow type
  unfold accept at h
  generalize checktype isLocal v overflow type = checked at h htype ⊢
  obtain ⟨type', overflow₁⟩ := checked
  dsimp only at h htype
  split_ifs at h with hflood
  · cases (Prod.mk.inj h).1
  cases hm : Msg.ofCode type' with
  | none =>
    rw [hm] at h
    cases (Prod.mk.inj h).1
  | some m' =>
    rw [hm] at h
    dsimp only at h
    have hsame : type' = type := by
      obtain heq | rfl | heq := htype
      · exact heq
      · cases hm
      · exact absurd heq hflood
    cases hfs : fields v.smode m' with
    | none =>
      rw [hfs] at h
      cases (Prod.mk.inj h).1
    | some fs' =>
      rw [hfs] at h
      obtain ⟨hok, rfl⟩ := Prod.mk.inj h
      cases hok
      exact ⟨by rw [hsame], hsame ▸ hm, hfs⟩

/-- The loop of `parsepacket`; `handle` is what the case of a message does with the server, and
whether `event_editpacket` says to leave the packet. -/
def parse (overflow : Nat) (s : σ) (p : DataBuf) : Run σ :=
  if _h : 0 < p.remaining then
    match _haccept : accept isLocal (view s) overflow (getint p).1 with
    | (.error ending, overflow) => ⟨[], ending, s, overflow⟩
    | (.ok (m, fs), overflow) =>
      let q := readFields (view s) fs (getint p).2
      -- `p.buf` from `curmsg` to `p.length()`
      let bytes := p.rest.take (q.len - p.len)
      let done := handle s m bytes
      if m ∈ editing ∧ done.2 = true then ⟨[(m, bytes)], .editpacket, done.1, overflow⟩
      else (parse overflow done.1 q).cons (m, bytes)
  else ⟨[], .done, s, overflow⟩
termination_by p.remaining
decreasing_by
  exact lt_of_le_of_lt
    (forward_readFields (roomy_fields (accept_ok isLocal _haccept).2.2) _).remaining_le
    (remaining_getint_lt _h)

/-- What should come of messages that are sent one after the other. -/
def dispatch (overflow : Nat) (s : σ) : List (Msg × List UInt8) → Run σ
  | [] => ⟨[], .done, s, overflow⟩
  | (m, bytes) :: xs =>
    match accept isLocal (view s) overflow m.code with
    | (.error ending, overflow) => ⟨[], ending, s, overflow⟩
    | (.ok _, overflow) =>
      let done := handle s m bytes
      if m ∈ editing ∧ done.2 = true then ⟨[(m, bytes)], .editpacket, done.1, overflow⟩
      else (dispatch overflow done.1 xs).cons (m, bytes)

/-- The messages of a mode come while the mode is on, as far as the loop goes. -/
def InMode (overflow : Nat) (s : σ) : List (Msg × List UInt8) → Prop
  | [] => True
  | (m, bytes) :: xs => ∀ fs overflow',
      accept isLocal (view s) overflow m.code = (.ok (m, fs), overflow') →
        (∀ mode, m.mode = some mode → (view s).smode = some mode) ∧
          (¬ (m ∈ editing ∧ (handle s m bytes).2 = true) →
            InMode overflow' (handle s m bytes).1 xs)

/-- A message as a client writes it. -/
def WellFormed (x : Msg × List UInt8) : Prop :=
  ∃ w, x.2 = intBytes x.1.code ++ w ∧ ∀ fs, fields x.1.mode x.1 = some fs → EncodesAll fs w

/-- It begins with its number. -/
theorem WellFormed.begins {x : Msg × List UInt8} (hx : WellFormed x) {p : DataBuf}
    {bs : List UInt8} (hrest : p.rest = x.2 ++ bs) :
    (getint p).1 = x.1.code ∧ 0 < p.remaining := by
  obtain ⟨w, hbytes, -⟩ := hx
  rw [hbytes, List.append_assoc] at hrest
  refine ⟨by rw [getint_of_rest hrest], ?_⟩
  have := length_intBytes_pos x.1.code
  rw [← DataBuf.length_rest, hrest, List.length_append]
  omega

/-- What the case of a message reads of a message that a client has written. -/
theorem readFields_message {x : Msg × List UInt8} (hx : WellFormed x) {p : DataBuf}
    {bs : List UInt8} (hover : p.overread = false) (hrest : p.rest = x.2 ++ bs)
    (hmode : ∀ mode, x.1.mode = some mode → v.smode = some mode)
    (hfs : fields v.smode x.1 = some fs) :
    readFields v fs (getint p).2 = p.skip x.2.length := by
  obtain ⟨w, hbytes, hw⟩ := hx
  have hall := hw fs (by rw [← fields_eq hmode, hfs])
  rw [hbytes] at hrest ⊢
  exact ((takes_getint x.1.code).comp (takes_readFields hall)) p bs hover hrest

/-- A message whose mode is on is taken as it was written, if it is let in. -/
theorem parse_message {x : Msg × List UInt8} (hx : WellFormed x) {s : σ} {p : DataBuf}
    {bs : List UInt8} (hover : p.overread = false) (hrest : p.rest = x.2 ++ bs)
    (hmode : ∀ mode, x.1.mode = some mode → (view s).smode = some mode)
    (haccept : accept isLocal (view s) overflow x.1.code = (.ok (x.1, fs), overflow')) :
    parse isLocal view handle overflow s p =
      if x.1 ∈ editing ∧ (handle s x.1 x.2).2 = true then
        ⟨[x], .editpacket, (handle s x.1 x.2).1, overflow'⟩
      else (parse isLocal view handle overflow' (handle s x.1 x.2).1 (p.skip x.2.length)).cons x := by
  obtain ⟨m, bytes⟩ := x
  have hread := readFields_message hx hover hrest hmode (accept_ok isLocal haccept).2.2
  have hlen : (p.skip bytes.length).len - p.len = bytes.length := by
    rw [DataBuf.len_skip p (DataBuf.length_le_of_rest hrest), Nat.add_sub_cancel_left]
  obtain ⟨hget, hpos⟩ := hx.begins hrest
  rw [parse, dif_pos hpos]
  split
  · rename_i haccept'
    rw [hget, haccept] at haccept'
    cases (Prod.mk.inj haccept').1
  · rename_i haccept'
    rw [hget, haccept] at haccept'
    obtain ⟨hok, rfl⟩ := Prod.mk.inj haccept'
    cases hok
    dsimp only at hread ⊢
    rw [hread, hlen, hrest, List.take_left]

theorem parse_rest (xs : List (Msg × List UInt8)) (hxs : ∀ x ∈ xs, WellFormed x)
    (s : σ) (hmode : InMode isLocal view handle overflow s xs) {p : DataBuf}
    (hover : p.overread = false) (hrest : p.rest = xs.flatMap Prod.snd) :
    parse isLocal view handle overflow s p = dispatch isLocal view handle overflow s xs := by
  induction xs generalizing overflow s p with
  | nil =>
    have hempty : ¬ 0 < p.remaining := by
      rw [← DataBuf.length_rest, hrest]
      exact Nat.lt_irrefl 0
    rw [parse, dif_neg hempty, dispatch]
  | cons x xs ih =>
    have hx := hxs _ List.mem_cons_self
    rw [List.flatMap_cons] at hrest
    obtain ⟨hget, hpos⟩ := hx.begins hrest
    rcases haccept : accept isLocal (view s) overflow x.1.code with ⟨ending | ⟨m', fs⟩, overflow'⟩
    · rw [parse, dif_pos hpos, dispatch, haccept]
      split
      · rename_i haccept'
        rw [hget, haccept] at haccept'
        cases haccept'
        rfl
      · rename_i haccept'
        rw [hget, haccept] at haccept'
        cases (Prod.mk.inj haccept').1
    · obtain rfl : x.1 = m' := by
        have hm := (accept_ok isLocal haccept).2.1
        rwa [Msg.ofCode_code, Option.some_inj] at hm
      obtain ⟨hmode, hnext⟩ := hmode fs overflow' haccept
      rw [parse_message isLocal view handle hx hover hrest hmode haccept, dispatch, haccept]
      dsimp only
      split
      · rfl
      · rename_i hgoes
        rw [ih (fun y hy => hxs y (List.mem_cons_of_mem _ hy)) _ (hnext hgoes)
          (p := p.skip x.2.length) hover (DataBuf.rest_skip_of_rest hrest)]

/-- A packet that was put together from messages is taken apart at them: each is handed over with
its own bytes, one after the other, up to the first that is not let in. -/
theorem parse_messages (xs : List (Msg × List UInt8)) (hxs : ∀ x ∈ xs, WellFormed x)
    (s : σ) (hmode : InMode isLocal view handle overflow s xs) :
    parse isLocal view handle overflow s (DataBuf.ofBytes (xs.flatMap Prod.snd)) =
      dispatch isLocal view handle overflow s xs :=
  parse_rest isLocal view handle xs hxs s hmode (DataBuf.overread_ofBytes _)
    (DataBuf.rest_ofBytes _)

/-- Two bases, as a client tells of them. -/
def basesBytes : List UInt8 :=
  intBytes 2 ++ [[1, 2, 3, 4], [-5, 600, 7, 8]].flatMap (·.flatMap intBytes)

/-- The position of a client that falls. -/
def fallBytes : List UInt8 :=
  uintBytes 0 ++ ([7] ++ (uintBytes 0x10 ++ [5, 1, 2, 0, 0, 128, 20, 30, 44, 90, 1, 9, 8]))

/-- A vote that brings the capture mode, the bases of its map, a fall, and a ping. -/
def voteAndBases : List (Msg × List UInt8) :=
  [(.N_MAPVOTE, intBytes N_MAPVOTE.code ++ (stringBytes [97] ++ (intBytes 7 ++ []))),
    (.N_BASES, intBytes N_BASES.code ++ (basesBytes ++ [])),
    (.N_POS, intBytes Msg.N_POS.code ++ (fallBytes ++ [])),
    (.N_PING, intBytes N_PING.code ++ (intBytes 1000 ++ []))]

theorem wellFormed_voteAndBases : ∀ x ∈ voteAndBases, WellFormed x := by
  intro x hx
  obtain rfl | rfl | rfl | rfl : x = _ ∨ x = _ ∨ x = _ ∨ x = _ := by
    simpa [voteAndBases] using hx
  · refine ⟨stringBytes [97] ++ (intBytes 7 ++ []), rfl, fun fs hfs => ?_⟩
    cases hfs
    exact .cons (a := stringBytes [97]) ⟨[97], by decide, by decide, rfl⟩
      (.cons (a := intBytes 7) ⟨7, rfl⟩ .nil)
  · refine ⟨basesBytes ++ [], rfl, fun fs hfs => ?_⟩
    cases hfs
    exact .cons (a := basesBytes)
      ⟨[[1, 2, 3, 4], [-5, 600, 7, 8]], by decide, by decide, rfl⟩ .nil
  · refine ⟨fallBytes ++ [], rfl, fun fs hfs => ?_⟩
    cases hfs
    exact .cons (a := fallBytes) ⟨0, 7, 0x10, [5, 1, 2, 0, 0, 128, 20, 30, 44, 90, 1, 9, 8],
      by decide, by decide, by decide, rfl⟩ .nil
  · refine ⟨intBytes 1000 ++ [], rfl, fun fs hfs => ?_⟩
    cases hfs
    exact .cons (a := intBytes 1000) ⟨1000, rfl⟩ .nil

/-- A vote is done at once. -/
def votes (v : View) (m : Msg) (_bytes : List UInt8) : View × Bool :=
  (if m = .N_MAPVOTE then { v with smode := some .capturemode } else v, false)

theorem inMode_voteAndBases :
    InMode false id votes 0 ⟨false, false, none, false⟩ voteAndBases := by
  intro fs overflow h
  refine ⟨fun _ => nofun, fun _ fs overflow h => ⟨fun mode hmode => ?_, fun _ fs overflow h => ?_⟩⟩
  · cases hmode
    rfl
  · exact ⟨fun _ => nofun, fun _ fs overflow h => ⟨fun _ => nofun, fun _ => trivial⟩⟩

theorem parse_messages_voteAndBases :
    parse false id votes 0 ⟨false, false, none, false⟩
      (DataBuf.ofBytes (voteAndBases.flatMap Prod.snd)) =
    ⟨voteAndBases, .done, ⟨false, false, some .capturemode, false⟩, 3⟩ := by
  rw [parse_messages false id votes voteAndBases wellFormed_voteAndBases _ inMode_voteAndBases]
  rfl

/-- The messages that `++ci->overflow` counts. -/
def counted (m : Msg) : Bool := msgmask m ≠ 3 ∧ msgmask m ≠ 4

/-- What `checktype` lets in of a client that is not local. -/
theorem accept_remote (h : accept false v overflow type = (.ok (m, fs), overflow')) :
    msgmask m ≠ 1 ∧ (msgmask m = 2 ∨ msgmask m = 3 → v.edit = true) ∧
      (if counted m then overflow' = overflow + 1 ∧ overflow' < 200 else overflow' = overflow) := by
  obtain ⟨hcheck, hm, -⟩ := accept_ok false h
  have hfilter : msgfilter type = msgmask m := by rw [msgfilter, hm, Option.elim_some]
  have hneg : type ≠ -1 ∧ type ≠ -2 := by constructor <;> rintro rfl <;> cases hm
  unfold checktype at hcheck
  rw [hfilter] at hcheck
  unfold counted
  grind

theorem accept_error {ending : Ending}
    (h : accept isLocal v overflow type = (.error ending, overflow')) :
    ending ≠ .done ∧ ending ≠ .editpacket := by
  unfold accept at h
  constructor <;>
    · rintro rfl
      grind

/-- What holds of the loop over a packet of any bytes. -/
structure Untrusted (overflow : Nat) (bs : List UInt8) (run : Run σ) : Prop where
  /-- The messages lie one behind the other in the packet. -/
  tiled : run.dispatched.flatMap Prod.snd <+: bs
  nonempty : ∀ x ∈ run.dispatched, x.2 ≠ []
  /-- The loop runs over the packet's end only with all of it. -/
  whole : run.ending = .done → run.dispatched.flatMap Prod.snd = bs
  /-- No message of the server's comes in from a client. -/
  server : isLocal = false → ∀ x ∈ run.dispatched, msgmask x.1 ≠ 1
  /-- No editing on a server that is not in a mode for it. -/
  edit : isLocal = false → (∀ s, (view s).edit = false) →
    ∀ x ∈ run.dispatched, msgmask x.1 ≠ 2 ∧ msgmask x.1 ≠ 3
  /-- Fewer than 200 messages are counted until the counter is set back. -/
  flood : isLocal = false →
    overflow + run.dispatched.countP (fun x => counted x.1) ≤ max overflow 199
  /-- The counter is ready for the next packet. -/
  counter : isLocal = false → run.ending = .done ∨ run.ending = .editpacket →
    run.overflow = overflow + run.dispatched.countP fun x => counted x.1

variable {isLocal view}

theorem untrusted_nil {bs : List UInt8} {ending : Ending} {s : σ} (h : ending = .done → bs = [])
    (hcounter : ending = .done ∨ ending = .editpacket → overflow' = overflow) :
    Untrusted isLocal view overflow bs ⟨[], ending, s, overflow'⟩ where
  tiled := List.nil_prefix
  nonempty _ hx := nomatch hx
  whole hdone := (h hdone).symm
  server _ _ hx := nomatch hx
  edit _ _ _ hx := nomatch hx
  flood _ := Nat.le_max_left ..
  counter _ := hcounter

/-- A message that is let in, before a loop that does as it should. -/
theorem Untrusted.cons {s : σ} {span bs : List UInt8} {run : Run σ}
    (haccept : accept isLocal (view s) overflow type = (.ok (m, fs), overflow'))
    (hspan : span ≠ []) (h : Untrusted isLocal view overflow' bs run) :
    Untrusted isLocal view overflow (span ++ bs) (run.cons (m, span)) where
  tiled := by
    rw [Run.cons, List.flatMap_cons]
    exact (List.prefix_append_right_inj span).mpr h.tiled
  nonempty x hx := by
    obtain rfl | hx := List.mem_cons.mp hx
    · exact hspan
    · exact h.nonempty x hx
  whole hdone := by
    rw [Run.cons, List.flatMap_cons, h.whole hdone]
  server hlocal x hx := by
    obtain rfl | hx := List.mem_cons.mp hx
    · exact (accept_remote (hlocal ▸ haccept)).1
    · exact h.server hlocal x hx
  edit hlocal hedit x hx := by
    obtain rfl | hx := List.mem_cons.mp hx
    · have hclass := (accept_remote (hlocal ▸ haccept)).2.1
      rw [hedit] at hclass
      exact ⟨fun heq => Bool.false_ne_true (hclass (.inl heq)),
        fun heq => Bool.false_ne_true (hclass (.inr heq))⟩
    · exact h.edit hlocal hedit x hx
  flood hlocal := by
    have hcount := (accept_remote (hlocal ▸ haccept)).2.2
    have hrest := h.flood hlocal
    rw [Run.cons, List.countP_cons]
    dsimp only
    split at hcount
    · rw [if_pos ‹_›]
      omega
    · rw [if_neg ‹_›]
      omega
  counter hlocal hending := by
    have hcount := (accept_remote (hlocal ▸ haccept)).2.2
    have hrest := h.counter hlocal hending
    rw [Run.cons, List.countP_cons]
    dsimp only
    split at hcount
    · rw [if_pos ‹_›]
      omega
    · rw [if_neg ‹_›]
      omega

theorem Forward.rest {p q : DataBuf} (h : Forward p q) : q.rest = p.rest.drop (q.len - p.len) := by
  rw [DataBuf.rest, DataBuf.rest, h.buf, List.drop_drop, Nat.add_sub_cancel' h.le]

/-- The bytes of a message are what its case has read, and there is one at least. -/
theorem Forward.span {p q : DataBuf} (hpos : 0 < p.remaining) (h : Forward (getint p).2 q) :
    p.rest.take (q.len - p.len) ++ q.rest = p.rest ∧ p.rest.take (q.len - p.len) ≠ [] := by
  have hall : Forward p q := (forward_getint p).trans h
  have hless := lt_of_le_of_lt h.remaining_le (remaining_getint_lt hpos)
  unfold DataBuf.remaining DataBuf.maxlen at hless
  rw [hall.buf] at hless
  refine ⟨by rw [hall.rest, List.take_append_drop], fun hnil => ?_⟩
  have hlen := congrArg List.length hnil
  rw [List.length_take, DataBuf.length_rest, List.length_nil] at hlen
  omega

/-- Whatever bytes come, the loop ends, the messages it hands over lie one behind the other from
the packet's start, and nothing gets in that a client may not send. -/
theorem parse_untrusted (isLocal : Bool) (view : σ → View)
    (handle : σ → Msg → List UInt8 → σ × Bool) (overflow : Nat) (s : σ) (p : DataBuf) :
    Untrusted isLocal view overflow p.rest (parse isLocal view handle overflow s p) := by
  fun_induction parse isLocal view handle overflow s p with
  | case1 overflow s p hpos ending overflow' haccept =>
    obtain ⟨hdone, hedit⟩ := accept_error isLocal haccept
    exact untrusted_nil (fun h => absurd h hdone) fun h => absurd h (not_or.mpr ⟨hdone, hedit⟩)
  | case2 overflow s p hpos m fs overflow' haccept q bytes done hedit =>
    obtain ⟨htile, hne⟩ := (forward_readFields (v := view s)
      (roomy_fields (accept_ok isLocal haccept).2.2) (getint p).2).span hpos
    have hlast : Untrusted isLocal view overflow' q.rest ⟨[], .editpacket, done.1, overflow'⟩ :=
      untrusted_nil nofun fun _ => rfl
    exact htile ▸ hlast.cons haccept hne
  | case3 overflow s p hpos m fs overflow' haccept q bytes done hedit ih =>
    obtain ⟨htile, hne⟩ := (forward_readFields (v := view s)
      (roomy_fields (accept_ok isLocal haccept).2.2) (getint p).2).span hpos
    exact htile ▸ ih.cons haccept hne
  | case4 overflow s p hpos =>
    refine untrusted_nil (fun _ => List.eq_nil_of_length_eq_zero ?_) fun _ => rfl
    rw [DataBuf.length_rest]
    omega

end

end Packets

end Zuckerserv

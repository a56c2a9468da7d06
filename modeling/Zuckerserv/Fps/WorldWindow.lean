import Zuckerserv.Fps.WorldState
import Mathlib.Data.List.Rotate

/-!
# The windows of the world state

* `Block` — a block in the buffer: who queued it, and in whose name it was laid.
* `others` — the blocks of a group that are not a client's own, in the order of the
  doubled buffer: those behind its own blocks, then those in front of them.
* `Laid` — the invariant of a phase of `buildworldstate`: what the buffer holds, where
  each client's own blocks are in it, and what has been sent so far.
* `window_bytes` — what a window holds, read from the doubled buffer.
* `laid_sendpending` — sending the buffer keeps the invariant.
-/

namespace Zuckerserv

namespace WorldState

/-- A block in the world state buffer. -/
structure Block where
  /-- The human client in whose name it was laid. -/
  owner : Handle
  /-- The client that queued it: the owner or one of its bots. -/
  sender : Handle
  /-- Its bytes. -/
  bytes : List UInt8

/-- The bytes of a list of blocks. -/
def flat (g : List Block) : List UInt8 := g.flatMap Block.bytes

@[simp] theorem flat_nil : flat [] = [] := rfl

@[simp] theorem flat_append (g h : List Block) : flat (g ++ h) = flat g ++ flat h :=
  List.flatMap_append

@[simp] theorem flat_singleton (b : Block) : flat [b] = b.bytes := by
  simp [flat]

/-- The blocks behind those of `c` and then the blocks in front of them. -/
def others (c : Handle) (g : List Block) : List Block :=
  (g.dropWhile fun b => b.owner ≠ c).dropWhile (fun b => b.owner = c) ++
    g.takeWhile fun b => b.owner ≠ c

/-- The blocks of `c` are `own`, in one piece. -/
structure IsCut (c : Handle) (g pre own post : List Block) : Prop where
  eq : g = pre ++ own ++ post
  pre_ne : ∀ b ∈ pre, b.owner ≠ c
  own_eq : ∀ b ∈ own, b.owner = c
  post_ne : ∀ b ∈ post, b.owner ≠ c

theorem others_of_isCut {c : Handle} {g pre own post : List Block} (h : IsCut c g pre own post)
    (hown : own ≠ []) : others c g = post ++ pre := by
  obtain ⟨b, bs, rfl⟩ := List.exists_cons_of_ne_nil hown
  have hb : b.owner = c := h.own_eq b (List.mem_cons_self ..)
  have hpre (x : Block) (hx : x ∈ pre) : decide (x.owner ≠ c) = true :=
    decide_eq_true (h.pre_ne x hx)
  have hdrop : g.dropWhile (fun b => b.owner ≠ c) = (b :: bs) ++ post := by
    rw [h.eq, List.append_assoc, List.dropWhile_append_of_pos hpre, List.cons_append,
      List.dropWhile_cons_of_neg (by simp [hb])]
  have htake : g.takeWhile (fun b => b.owner ≠ c) = pre := by
    rw [h.eq, List.append_assoc, List.takeWhile_append_of_pos hpre, List.cons_append,
      List.takeWhile_cons_of_neg (by simp [hb]), List.append_nil]
  have hpost : post.dropWhile (fun b => b.owner = c) = post := by
    cases post with
    | nil => rfl
    | cons x xs => exact List.dropWhile_cons_of_neg (by simp [h.post_ne x (List.mem_cons_self ..)])
  rw [others, hdrop, htake,
    List.dropWhile_append_of_pos fun x hx => decide_eq_true (h.own_eq x hx), hpost]

theorem others_of_ne {c : Handle} {g : List Block} (h : ∀ b ∈ g, b.owner ≠ c) :
    others c g = g := by
  have hg (x : Block) (hx : x ∈ g) : decide (x.owner ≠ c) = true := decide_eq_true (h x hx)
  have hdrop : g.dropWhile (fun b => b.owner ≠ c) = [] := List.dropWhile_eq_nil_iff.mpr hg
  have htake : g.takeWhile (fun b => b.owner ≠ c) = g := List.takeWhile_eq_self_iff.mpr hg
  rw [others, hdrop, htake]
  rfl

theorem isCut_of_ne {c : Handle} {g : List Block} (h : ∀ b ∈ g, b.owner ≠ c) :
    IsCut c g g [] [] where
  eq := by rw [List.append_nil, List.append_nil]
  pre_ne := h
  own_eq _ hb := absurd hb List.not_mem_nil
  post_ne _ hb := absurd hb List.not_mem_nil

/-- Up to rotation the window holds the blocks that are not the client's own. -/
theorem IsCut.others_isRotated {c : Handle} {g pre own post : List Block}
    (h : IsCut c g pre own post) : others c g ~r g.filter fun b => b.owner ≠ c := by
  have hpre : pre.filter (fun b => b.owner ≠ c) = pre :=
    List.filter_eq_self.mpr fun b hb => decide_eq_true (h.pre_ne b hb)
  have hown : own.filter (fun b => b.owner ≠ c) = [] :=
    List.filter_eq_nil_iff.mpr fun b hb => by simp [h.own_eq b hb]
  have hpost : post.filter (fun b => b.owner ≠ c) = post :=
    List.filter_eq_self.mpr fun b hb => decide_eq_true (h.post_ne b hb)
  have hfilter : g.filter (fun b => b.owner ≠ c) = pre ++ post := by
    rw [h.eq, List.filter_append, List.filter_append, hpre, hown, hpost, List.append_nil]
  rw [hfilter]
  by_cases hnil : own = []
  · have hg : g = pre ++ post := by rw [h.eq, hnil, List.append_nil]
    have hne : ∀ b ∈ g, b.owner ≠ c := fun b hb => by
      rcases List.mem_append.mp (hg ▸ hb) with hb | hb
      · exact h.pre_ne b hb
      · exact h.post_ne b hb
    rw [others_of_ne hne, hg]
  · rw [others_of_isCut h hnil]
    exact List.isRotated_append

/-! ## Channels -/

/-- The block a client's queue becomes. -/
def block (ch : Channel) (bi : ClientInfo) : List UInt8 :=
  if ch.header = 0 then ch.get bi
  else intBytes Msg.N_CLIENT.code ++ intBytes bi.clientnum ++
    uintBytes (Int32.ofNat (ch.get bi).length) ++ ch.get bi

/-- The bytes that are reserved for a client's block. -/
def need (ch : Channel) (bi : ClientInfo) : Nat :=
  if ch.get bi = [] then 0 else ch.header + (ch.get bi).length

/-- What the two channels have in common. -/
structure Channel.Lawful (ch : Channel) : Prop where
  put_eq : ∀ (b : DataBuf) (x : ClientInfo), (block ch x).length ≤ b.remaining →
    ch.put b x = b.putVals (block ch x)
  length_block_le : ∀ x, (block ch x).length ≤ ch.header + (ch.get x).length
  block_ne_nil : ∀ x, ch.get x ≠ [] → block ch x ≠ []
  getWs : ∀ (x : ClientInfo) (p : Option Nat) (n : Nat),
    ch.get { x with wsdata := p, wslen := n } = ch.get x
  clear_eq : ∀ x, (ch.clear x).clientnum = x.clientnum ∧ (ch.clear x).isBot = x.isBot ∧
    (ch.clear x).bots = x.bots ∧ (ch.clear x).wsdata = x.wsdata ∧ (ch.clear x).wslen = x.wslen

theorem lawful_positions : positions.Lawful where
  put_eq _ _ _ := rfl
  length_block_le _ := le_of_eq (Nat.zero_add _).symm
  block_ne_nil _ h := h
  getWs _ _ _ := rfl
  clear_eq _ := ⟨rfl, rfl, rfl, rfl, rfl⟩

theorem lawful_messages : messages.Lawful where
  put_eq b x h := by
    have hblock : block messages x = intBytes Msg.N_CLIENT.code ++ intBytes x.clientnum ++
      uintBytes (Int32.ofNat x.messages.length) ++ x.messages := rfl
    rw [hblock] at h ⊢
    simp only [List.length_append] at h
    have h1 : putint b Msg.N_CLIENT.code = b.putVals (intBytes Msg.N_CLIENT.code) :=
      putint_eq_putVals (by omega)
    have r1 : (b.putVals (intBytes Msg.N_CLIENT.code)).remaining = b.remaining - _ :=
      DataBuf.remaining_putVals (by omega)
    have h2 : putint (b.putVals (intBytes Msg.N_CLIENT.code)) x.clientnum = _ :=
      putint_eq_putVals (by omega)
    rw [DataBuf.putVals_putVals (by omega)] at h2
    have r2 : (b.putVals (intBytes Msg.N_CLIENT.code ++ intBytes x.clientnum)).remaining =
        b.remaining - _ := DataBuf.remaining_putVals (by rw [List.length_append]; omega)
    rw [List.length_append] at r2
    have h3 : putuint (b.putVals (intBytes Msg.N_CLIENT.code ++ intBytes x.clientnum))
        (Int32.ofNat x.messages.length) = _ := putuint_eq_putVals (by omega)
    rw [DataBuf.putVals_putVals (by rw [List.length_append]; omega)] at h3
    show (putuint (putint (putint b Msg.N_CLIENT.code) x.clientnum)
      (Int32.ofNat x.messages.length)).putVals x.messages = _
    rw [h1, h2, h3, DataBuf.putVals_putVals (by simp only [List.length_append]; omega)]
  length_block_le x := by
    have h1 : (intBytes Msg.N_CLIENT.code).length = 1 := by decide
    have h2 := length_intBytes_le x.clientnum
    have h3 := length_uintBytes_le (Int32.ofNat x.messages.length)
    show (intBytes Msg.N_CLIENT.code ++ intBytes x.clientnum ++
      uintBytes (Int32.ofNat x.messages.length) ++ x.messages).length ≤ 10 + x.messages.length
    simp only [List.length_append]
    omega
  block_ne_nil x _ := by
    show intBytes Msg.N_CLIENT.code ++ intBytes x.clientnum ++
      uintBytes (Int32.ofNat x.messages.length) ++ x.messages ≠ []
    have h1 := length_intBytes_pos Msg.N_CLIENT.code
    intro h
    have hlen := congrArg List.length h
    simp only [List.length_append, List.length_nil] at hlen
    omega
  getWs _ _ _ := rfl
  clear_eq _ := ⟨rfl, rfl, rfl, rfl, rfl⟩

/-! ## The invariant of a phase -/

/-- The memory a packet points to has been written for good. -/
def Packet.Within (front : List UInt8) (p : Packet) : Prop := p.data + p.size ≤ front.length

theorem Packet.bytes_append {front : List UInt8} {p : Packet} (h : p.Within front)
    (mem : List UInt8) : p.bytes (front ++ mem) = p.bytes front := by
  unfold Within at h
  rw [bytes, bytes, List.drop_append_of_le_length (by omega),
    List.take_append_of_le_length (by rw [List.length_drop]; omega)]

/-- The packets that get to a client on a channel, as the memory stands; `route` says where those
for a client number go. -/
def delivered (route : Int32 → Handle) (s : State) (chan : Nat) (c : Handle) : List (List UInt8) :=
  (s.sent.filter fun p => route p.dest = c ∧ p.chan = chan).map (Packet.bytes s.memory)

/-- Where the blocks of `c` are in the buffer that holds the blocks `g`. -/
inductive Window (s : State) (g : List Block) (c : Handle) : Prop
  /-- Nowhere: its pointer is into an earlier buffer, or `NULL`. -/
  | none : (∀ b ∈ g, b.owner ≠ c) → s.inBuffer c = Option.none → Window s g c
  /-- At its pointer. -/
  | some (pre own post : List Block) : IsCut c g pre own post → own ≠ [] →
      (s.info c).wsdata = Option.some (s.base + (flat pre).length) →
      (s.info c).wslen = (flat own).length → Window s g c

theorem Window.isCut {s : State} {g : List Block} {c : Handle} (h : Window s g c) :
    ∃ pre own post, IsCut c g pre own post := by
  cases h with
  | none hne hnone => exact ⟨g, [], [], isCut_of_ne hne⟩
  | some pre own post hcut hown hptr hlen => exact ⟨pre, own, post, hcut⟩

/-- The packet of a client for a group of blocks, if there is anything in it. -/
def packetsOf (c : Handle) (groups : List (List Block)) : List (List UInt8) :=
  (groups.map fun g => flat (others c g)).filter (· ≠ [])

/-- The invariant of a phase for the channel `ch` that began in `s₀`: the groups `groups`
have been sent, the blocks `g` are in the buffer, and there is room for `budget` bytes. -/
structure Laid (route : Int32 → Handle) (ch : Channel) (clients : List Handle) (s₀ s : State)
    (groups : List (List Block)) (g : List Block) (budget : Nat) : Prop where
  /-- The numbers of the human clients lead back to them. -/
  routed : ∀ c ∈ clients, (s₀.info c).isBot = false → route (s₀.info c).clientnum = c
  written : s.wsbuf.written = flat g
  bytes_ne : ∀ b ∈ g, b.bytes ≠ []
  room : 2 * (s.wsbuf.len + budget) ≤ s.wsbuf.maxlen
  window : ∀ c ∈ clients, Window s g c
  /-- In a group that has been sent the blocks of a client are in one piece, too. -/
  cut : ∀ c ∈ clients, ∀ x ∈ groups, ∃ pre own post, IsCut c x pre own post
  within : ∀ p ∈ s.sent, p.Within s.front
  /-- What has been sent on this channel since the phase began. -/
  sent : ∀ c ∈ clients, (s₀.info c).isBot = false →
    delivered route s ch.chan c = delivered route s₀ ch.chan c ++ packetsOf c groups
  /-- Nothing is sent on the other channel. -/
  other : ∀ c, ∀ k ≠ ch.chan, delivered route s k c = delivered route s₀ k c
  /-- The clients themselves stay as they are. -/
  static : ∀ i, (s.info i).clientnum = (s₀.info i).clientnum ∧
    (s.info i).isBot = (s₀.info i).isBot ∧ (s.info i).bots = (s₀.info i).bots

theorem delivered_eq {route : Int32 → Handle} {s : State} (h : ∀ p ∈ s.sent, p.Within s.front) (chan : Nat) (c : Handle) :
    delivered route s chan c =
      (s.sent.filter fun p => route p.dest = c ∧ p.chan = chan).map (Packet.bytes s.front) :=
  List.map_congr_left fun p hp => Packet.bytes_append (h p (List.mem_of_mem_filter hp)) _

theorem length_flat_pos {g : List Block} (hb : ∀ b ∈ g, b.bytes ≠ []) (hg : g ≠ []) :
    0 < (flat g).length := by
  obtain ⟨b, bs, rfl⟩ := List.exists_cons_of_ne_nil hg
  have hpos := List.length_pos_of_ne_nil (hb b (List.mem_cons_self ..))
  rw [flat, List.flatMap_cons, List.length_append]
  omega

theorem Laid.len_eq {route : Int32 → Handle} {ch : Channel} {clients : List Handle} {s₀ s : State}
    {groups : List (List Block)} {g : List Block} {budget : Nat}
    (h : Laid route ch clients s₀ s groups g budget) : s.wsbuf.len = (flat g).length := by
  rw [← h.written, DataBuf.length_written]

/-! ## Sending a group -/

/-- The filter of the packets for one client out of one packet for each. -/
theorem filter_dest {route : Int32 → Handle} {clients : List Handle} (hnodup : clients.Nodup)
    {c : Handle} (hc : c ∈ clients) (chan : Nat) {f : Handle → Option Packet}
    (hf : ∀ i ∈ clients, ∀ p, f i = some p → route p.dest = i ∧ p.chan = chan) :
    (clients.filterMap f).filter (fun p => route p.dest = c ∧ p.chan = chan) = (f c).toList := by
  induction clients with
  | nil => exact absurd hc (List.not_mem_nil)
  | cons i is ih =>
    obtain ⟨hi, his⟩ := List.nodup_cons.mp hnodup
    -- what the other clients are sent is not for `c`
    have hskip (hci : c ∉ is) :
        (is.filterMap f).filter (fun p => route p.dest = c ∧ p.chan = chan) = [] := by
      rw [List.filter_eq_nil_iff]
      intro p hp
      obtain ⟨j, hj, hjp⟩ := List.mem_filterMap.mp hp
      have hdest := (hf j (List.mem_cons_of_mem _ hj) p hjp).1
      simp only [decide_eq_true_eq, not_and]
      rintro rfl
      exact absurd (hdest ▸ hj) hci
    have htail : ∀ j ∈ is, ∀ p, f j = some p → route p.dest = j ∧ p.chan = chan :=
      fun j hj => hf j (List.mem_cons_of_mem _ hj)
    rcases List.mem_cons.mp hc with rfl | hc
    · cases hfc : f c with
      | none =>
        rw [List.filterMap_cons_none hfc]
        exact hskip hi
      | some p =>
        rw [List.filterMap_cons_some hfc, List.filter_cons_of_pos (by simpa using hf c hc p hfc),
          hskip hi]
        rfl
    · have hne : i ≠ c := fun h => hi (h ▸ hc)
      cases hfi : f i with
      | none =>
        rw [List.filterMap_cons_none hfi]
        exact ih his hc htail
      | some p =>
        rw [List.filterMap_cons_some hfi, List.filter_cons_of_neg
          (by simp [(hf i (List.mem_cons_self ..) p hfi).1, hne])]
        exact ih his hc htail

theorem window_dest {s : State} {chan wslen : Nat} {i : Handle} {p : Packet}
    (h : window s chan wslen i = some p) :
    (s.info i).isBot = false ∧ p.dest = (s.info i).clientnum ∧ p.chan = chan := by
  unfold window at h
  split_ifs at h with h1
  dsimp only at h
  split_ifs at h with h2
  rw [← Option.some.inj h]
  exact ⟨Bool.eq_false_iff.mpr h1, rfl, rfl⟩

section Send

variable {route : Int32 → Handle} {ch : Channel} {clients : List Handle} {s₀ s : State}
  {groups : List (List Block)} {g : List Block} {budget : Nat}

/-- The window of a human client is its packet for the group. -/
theorem window_bytes (h : Laid route ch clients s₀ s groups g budget) (hg : g ≠ []) {c : Handle}
    (hmem : c ∈ clients) (hc : (s.info c).isBot = false) (tail : List UInt8) :
    (window s ch.chan (flat g).length c).toList.map
        (Packet.bytes (s.front ++ (flat g ++ flat g) ++ tail)) = packetsOf c [g] ∧
      ∀ p, window s ch.chan (flat g).length c = some p → p.Within (s.front ++ (flat g ++ flat g)) := by
  have hpos := length_flat_pos h.bytes_ne hg
  unfold window
  rw [if_neg (by simp [hc])]
  cases h.window c hmem with
  | none hne hnone =>
    have hothers := others_of_ne hne
    simp only [hnone]
    rw [if_neg (by omega)]
    have hne' : flat g ≠ [] := List.ne_nil_of_length_pos hpos
    refine ⟨?_, fun p hp => ?_⟩
    · simp [packetsOf, hothers, hne', Packet.bytes, State.base]
    · rw [← Option.some.inj hp]
      simp [Packet.Within, State.base]
  | some pre own post hcut hown hptr hlen =>
    have hin : s.inBuffer c = some (s.base + (flat pre).length) := by
      rw [State.inBuffer, hptr, Option.filter_some_pos (by simp)]
    have hflat : flat g = flat pre ++ flat own ++ flat post := by
      rw [hcut.eq, flat_append, flat_append]
    have hlg : (flat g).length = (flat pre).length + (flat own).length + (flat post).length := by
      rw [hflat, List.length_append, List.length_append]
    have hothers : flat (others c g) = flat post ++ flat pre := by
      rw [others_of_isCut hcut hown, flat_append]
    simp only [hin, hlen]
    by_cases hsize : (flat pre).length + (flat post).length = 0
    · rw [if_pos (by omega)]
      have hpre := List.eq_nil_of_length_eq_zero (show (flat pre).length = 0 by omega)
      have hpost := List.eq_nil_of_length_eq_zero (show (flat post).length = 0 by omega)
      refine ⟨?_, fun p hp => absurd hp (by simp)⟩
      simp [packetsOf, hothers, hpre, hpost]
    · rw [if_neg (by omega)]
      refine ⟨?_, fun p hp => ?_⟩
      · have hne : flat post ++ flat pre ≠ [] := by
          intro hnil
          have hlen0 := congrArg List.length hnil
          rw [List.length_append, List.length_nil] at hlen0
          omega
        have hbytes : Packet.bytes (s.front ++ (flat g ++ flat g) ++ tail)
            ⟨(s.info c).clientnum, ch.chan, s.base + (flat pre).length + (flat own).length,
              (((flat g).length : Int) - (flat own).length).toNat⟩ = flat post ++ flat pre := by
          -- the doubled buffer, cut where the window of `c` begins and ends
          have hcut : s.front ++ (flat g ++ flat g) ++ tail = (s.front ++ flat pre ++ flat own) ++
              ((flat post ++ flat pre) ++ (flat own ++ flat post ++ tail)) := by
            simp only [hflat, List.append_assoc]
          have hdata : (s.front ++ flat pre ++ flat own).length =
              s.base + (flat pre).length + (flat own).length := by
            rw [List.length_append, List.length_append, State.base]
          have hsz : (flat post ++ flat pre).length =
              (((flat g).length : Int) - (flat own).length).toNat := by
            rw [List.length_append]
            omega
          rw [Packet.bytes, hcut, List.drop_left' hdata, List.take_left' hsz]
        simp only [Option.toList_some, List.map_cons, List.map_nil, hbytes, packetsOf, hothers]
        exact (List.filter_eq_self.mpr fun x hx => by
          rw [List.mem_singleton.mp hx]
          exact decide_eq_true hne).symm
      · rw [← Option.some.inj hp]
        simp only [Packet.Within, State.base, List.length_append]
        omega

/-- The state in which a group has been sent. -/
theorem sendpending_spec (h : Laid route ch clients s₀ s groups g budget) (hg : g ≠ []) :
    let s' := sendpending ch clients s
    s'.info = s.info ∧ s'.front = s.front ++ (flat g ++ flat g) ∧
      s'.sent = s.sent ++ clients.filterMap (window s ch.chan (flat g).length) ∧
      s'.wsbuf.len = 0 ∧ s'.wsbuf.maxlen = s.wsbuf.maxlen - 2 * (flat g).length := by
  have hpos := length_flat_pos h.bytes_ne hg
  have hlen := h.len_eq
  have hroom := h.room
  have htake : s.wsbuf.buf.take s.wsbuf.len = flat g := h.written
  have hfit : (flat g).length ≤ s.wsbuf.remaining := by
    rw [DataBuf.remaining]
    omega
  have hwritten : (s.wsbuf.putVals (flat g)).buf.take (s.wsbuf.putVals (flat g)).len =
      flat g ++ flat g := by
    have hput := DataBuf.written_putVals hfit
    rwa [h.written] at hput
  intro s'
  have hs' : s' = { s with
      recorded := s.recorded ++ [(ch.chan, flat g)]
      sent := s.sent ++ clients.filterMap (window s ch.chan (flat g).length)
      front := s.front ++ (flat g ++ flat g)
      wsbuf := (s.wsbuf.putVals (flat g)).offset (s.wsbuf.putVals (flat g)).len } := by
    show sendpending ch clients s = _
    rw [sendpending, if_neg (by omega)]
    rw [hlen] at htake
    simp only [hlen, htake, hwritten]
  rw [hs']
  refine ⟨rfl, rfl, rfl, DataBuf.len_offset_len _, ?_⟩
  dsimp only
  rw [DataBuf.maxlen_offset_len, DataBuf.maxlen_putVals, DataBuf.len_putVals hfit, hlen]
  omega

/-- Sending the buffer turns what is in it into a group that has been sent. -/
theorem laid_sendpending (hnodup : clients.Nodup) (h : Laid route ch clients s₀ s groups g budget)
    (hg : g ≠ []) :
    Laid route ch clients s₀ (sendpending ch clients s) (groups ++ [g]) [] budget := by
  obtain ⟨hinfo, hfront, hsent, hlen0, hmax⟩ := sendpending_spec h hg
  have hpos := length_flat_pos h.bytes_ne hg
  have hlen := h.len_eq
  have hroom := h.room
  generalize sendpending ch clients s = s' at *
  have hmem : s'.memory = s.front ++ (flat g ++ flat g) ++ s'.wsbuf.buf := by
    rw [State.memory, hfront]
  have hold (p : Packet) (hp : p ∈ s.sent) : p.bytes s'.memory = p.bytes s.front := by
    rw [hmem, List.append_assoc]
    exact Packet.bytes_append (h.within p hp) _
  have hdelivered (k : Nat) (c : Handle) : delivered route s' k c = delivered route s k c ++
      ((clients.filterMap (window s ch.chan (flat g).length)).filter
        fun p => route p.dest = c ∧ p.chan = k).map (Packet.bytes s'.memory) := by
    rw [delivered_eq h.within, delivered, hsent, List.filter_append, List.map_append]
    congr 1
    exact List.map_congr_left fun p hp => hold p (List.mem_of_mem_filter hp)
  -- the window of a client is sent to its number, and so to the client
  have hdest : ∀ i ∈ clients, ∀ p, window s ch.chan (flat g).length i = some p →
      route p.dest = i ∧ p.chan = ch.chan := by
    intro i hi p hp
    obtain ⟨hhuman, hnumber, hchan⟩ := window_dest hp
    obtain ⟨hnum, hbot, -⟩ := h.static i
    rw [hnumber, hnum]
    exact ⟨h.routed i hi (hbot ▸ hhuman), hchan⟩
  refine ⟨h.routed, ?_, fun b hb => absurd hb List.not_mem_nil, by omega, fun c hc => ?_,
    fun c hc x hx => ?_, fun p hp => ?_, fun c hc hbot => ?_, fun c k hk => ?_, ?_⟩
  · rw [DataBuf.written, hlen0, List.take_zero, flat_nil]
  · -- every pointer is now below the buffer
    refine .none (fun b hb => absurd hb List.not_mem_nil) ?_
    have hbase : s'.base = s.base + 2 * (flat g).length := by
      simp only [State.base, hfront, List.length_append]
      omega
    rw [State.inBuffer, hinfo, hbase]
    cases h.window c hc with
    | none hne hnone =>
      rw [State.inBuffer, Option.filter_eq_none_iff] at hnone
      refine Option.filter_eq_none_iff.mpr fun p hp hle => ?_
      refine hnone p hp (decide_eq_true ?_)
      have := of_decide_eq_true hle
      omega
    | some pre own post hcut hown hptr hwslen =>
      have hle : (flat pre).length ≤ (flat g).length := by
        rw [hcut.eq, flat_append, flat_append, List.length_append, List.length_append]
        omega
      refine Option.filter_eq_none_iff.mpr fun p hp hle' => ?_
      have := of_decide_eq_true hle'
      have hp' := Option.some.inj (hptr.symm.trans hp)
      omega
  · rcases List.mem_append.mp hx with hx | hx
    · exact h.cut c hc x hx
    · rw [List.mem_singleton.mp hx]
      exact (h.window c hc).isCut
  · rw [hfront]
    rcases List.mem_append.mp (hsent ▸ hp) with hp | hp
    · have := h.within p hp
      unfold Packet.Within at this ⊢
      rw [List.length_append]
      omega
    · obtain ⟨i, hi, hip⟩ := List.mem_filterMap.mp hp
      exact (window_bytes h hg hi (window_dest hip).1 []).2 p hip
  · have hbot' : (s.info c).isBot = false := (h.static c).2.1.trans hbot
    rw [hdelivered, h.sent c hc hbot, filter_dest hnodup hc ch.chan hdest, hmem,
      (window_bytes h hg hc hbot' _).1, List.append_assoc]
    simp only [packetsOf, List.map_append, List.filter_append]
  · rw [hdelivered, h.other c k hk, List.filter_eq_nil_iff.mpr, List.map_nil, List.append_nil]
    intro p hp
    obtain ⟨i, -, hip⟩ := List.mem_filterMap.mp hp
    simp [(window_dest hip).2.2, Ne.symm hk]
  · rw [hinfo]
    exact h.static

end Send

end WorldState

end Zuckerserv

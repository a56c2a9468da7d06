import Zuckerserv.Enet.Windows

/-!
# The queues of the sending end

* `flight`, `waiting` — the numbers of a channel that are in flight, and those not yet sent.
* `Sound` — the invariant of all channels of a peer.
* `sound_peerSend`, `sound_sendReliableOutgoingCommands`, `sound_checkTimeouts`,
  `sound_removeSentReliableCommand` — every function of the sending end keeps it.
-/

namespace Zuckerserv

namespace Enet

/-- A command with the number it has when numbers do not wrap around. -/
structure Numbered where
  channelID : Nat
  serial : Nat
  command : Command
  deriving DecidableEq

/-- A command in the queues of the sending end. -/
abbrev Outgoing : Type := OutgoingCommand Numbered

/-- The command with the label is a command of the sequence of its channel. -/
def IsNumbered (f : Nat) (packets : Nat → List Packet) (b : Numbered) : Prop :=
  IsCommand f (packets b.channelID) b.serial b.command

/-- A command in a queue agrees with its label. -/
structure Proper (f : Nat) (packets : Nat → List Packet) (o : Outgoing) : Prop where
  channel : o.command.channelID = o.channelID
  number : o.reliableSequenceNumber = o.command.serial % 65536
  command : IsNumbered f packets o.command

/-- The numbers of the channel `c` in a list of commands that have been sent, or have not. -/
def serials (c : Nat) (sent : Bool) (l : List Outgoing) : List Nat :=
  (l.filter fun o => o.channelID = c ∧ (0 < o.sendAttempts ↔ sent = true)).map (·.command.serial)

/-- The numbers of a channel that are in flight. -/
def flight (c : Nat) (sent outgoing : List Outgoing) : List Nat :=
  serials c true sent ++ serials c true outgoing

/-- The numbers of a channel that have not been sent. -/
def waiting (c : Nat) (outgoing : List Outgoing) : List Nat := serials c false outgoing

/-- The invariant of the sending end: `S c` numbers of channel `c` have been given out, the first
`F c` have been sent, those in `A c` have been acknowledged. -/
structure Sound (f : Nat) (packets : Nat → List Packet) (S F : Nat → Nat) (A : Nat → Nat → Prop)
    (channels : Nat → OutgoingChannel) (sent outgoing : List Outgoing) : Prop where
  proper : ∀ o ∈ sent ++ outgoing, Proper f packets o
  attempts : ∀ o ∈ sent, 0 < o.sendAttempts
  windows : ∀ c, Windows (S c) (F c) (A c) (channels c) (flight c sent outgoing)
    (waiting c outgoing)

/-- The invariant of the sending end of a peer. -/
def SoundSender (f : Nat) (packets : Nat → List Packet) (S F : Nat → Nat) (A : Nat → Nat → Prop)
    (s : Sender Numbered) : Prop :=
  Sound f packets S F A s.channels s.sentReliableCommands s.outgoingReliableCommands

variable {f : Nat} {packets : Nat → List Packet} {S F : Nat → Nat} {A : Nat → Nat → Prop}
  {channels : Nat → OutgoingChannel} {sent outgoing l : List Outgoing} {o : Outgoing} {c : Nat}
  {b : Bool} {s s' : Sender Numbered}

@[simp]
theorem serials_nil : serials c b [] = [] := rfl

theorem serials_append (l₁ l₂ : List Outgoing) :
    serials c b (l₁ ++ l₂) = serials c b l₁ ++ serials c b l₂ := by
  simp [serials]

theorem serials_cons (o : Outgoing) (l : List Outgoing) :
    serials c b (o :: l) =
      if o.channelID = c ∧ (0 < o.sendAttempts ↔ b = true) then o.command.serial :: serials c b l
      else serials c b l := by
  unfold serials
  rw [List.filter_cons]
  simp only [decide_eq_true_eq]
  split_ifs
  · rfl
  · rfl

theorem serials_perm {l₁ l₂ : List Outgoing} (h : l₁.Perm l₂) :
    (serials c b l₁).Perm (serials c b l₂) := (h.filter _).map _

/-- A change of what the lists do not look at. -/
theorem serials_map {g : Outgoing → Outgoing} (hchannel : ∀ o, (g o).channelID = o.channelID)
    (hattempts : ∀ o, (g o).sendAttempts = o.sendAttempts)
    (hcommand : ∀ o, (g o).command = o.command) : serials c b (l.map g) = serials c b l := by
  induction l with
  | nil => rfl
  | cons o l ih => rw [List.map_cons, serials_cons, serials_cons, hchannel, hattempts, hcommand, ih]

theorem serials_eq_nil (h : ∀ o ∈ l, ¬ (0 < o.sendAttempts ↔ b = true)) : serials c b l = [] := by
  unfold serials
  rw [List.filter_eq_nil_iff.mpr, List.map_nil]
  intro o ho hmem
  exact h o ho (of_decide_eq_true hmem).2

/-! ## Queueing a packet -/

/-- More packets are sent. -/
theorem Sound.mono {packets' : Nat → List Packet}
    (h : Sound f packets S F A channels sent outgoing)
    (hmono : ∀ b, IsNumbered f packets b → IsNumbered f packets' b) :
    Sound f packets' S F A channels sent outgoing :=
  ⟨fun o ho => ⟨(h.proper o ho).channel, (h.proper o ho).number, hmono _ (h.proper o ho).command⟩,
    h.attempts, h.windows⟩

/-- The packets of all channels, with one more on channel `c`. -/
def addPacket (packets : Nat → List Packet) (c : Nat) (p : Packet) : Nat → List Packet :=
  Function.update packets c (packets c ++ [p])

theorem IsNumbered.addPacket {p : Packet} {x : Numbered} (h : IsNumbered f packets x) :
    IsNumbered f (addPacket packets c p) x := by
  unfold IsNumbered Enet.addPacket at *
  by_cases hc : x.channelID = c
  · rw [hc, Function.update_self]
    rw [hc] at h
    exact h.append
  · rw [Function.update_of_ne hc]
    exact h

theorem sound_setupOutgoingCommand (body : Body) {label : Command → Numbered}
    (h : SoundSender f packets S F A s)
    (hchannel : ∀ x, (label x).channelID = c) (hserial : ∀ x, (label x).serial = S c + 1)
    (hcommand : IsNumbered f packets
      (label { reliableSequenceNumber := (S c + 1) % 65536, body })) :
    SoundSender f packets (Function.update S c (S c + 1)) F A
      (setupOutgoingCommand s c body label) := by
  have hnumber : (s.channels c).next.outgoingReliableSequenceNumber = (S c + 1) % 65536 :=
    (h.windows c).next.number
  unfold SoundSender setupOutgoingCommand
  dsimp only
  rw [hnumber]
  refine ⟨?_, h.attempts, fun c' => ?_⟩
  · intro o ho
    rw [← List.append_assoc] at ho
    rcases List.mem_append.mp ho with ho | ho
    · exact h.proper o ho
    · rw [List.mem_singleton.mp ho]
      exact ⟨hchannel _, by rw [hserial], hcommand⟩
  · have hflight : serials c' true [
        ({ channelID := c, reliableSequenceNumber := (S c + 1) % 65536, sentTime := 0,
           roundTripTimeout := 0, roundTripTimeoutLimit := 0, fragmentLength := body.dataLength,
           sendAttempts := 0, commandSize := body.commandSize,
           command := label { reliableSequenceNumber := (S c + 1) % 65536, body } } :
          Outgoing)] =
        [] := serials_eq_nil (by simp)
    rw [flight, waiting, serials_append, serials_append, hflight, List.append_nil, serials_cons,
      serials_nil, hserial]
    by_cases hc : c' = c
    · subst hc
      rw [Function.update_self, Function.update_self, if_pos ⟨rfl, by simp⟩]
      exact (h.windows c').next
    · rw [Function.update_of_ne hc, Function.update_of_ne hc, if_neg (fun hand => hc hand.1.symm),
        List.append_nil]
      exact h.windows c'

/-- The bodies of the commands of a packet. -/
theorem sound_setupAll (label : Nat → Command → Numbered) (bodies : List Body) {k : Nat}
    (h : SoundSender f packets S F A s)
    (hchannel : ∀ i x, (label i x).channelID = c)
    (hserial : ∀ i x, (label i x).serial = S c - k + 1 + i) (hk : k ≤ S c)
    (hcommand : ∀ i (hi : i < bodies.length), IsNumbered f packets (label (k + i)
      { reliableSequenceNumber := (S c + 1 + i) % 65536, body := bodies[i] })) :
    SoundSender f packets (Function.update S c (S c + bodies.length)) F A
      (setupAll c label s k bodies) := by
  induction bodies generalizing s S k with
  | nil => simpa [setupAll] using h
  | cons body bodies ih =>
    have hfirst := sound_setupOutgoingCommand body h (hchannel k)
      (fun x => by rw [hserial]; omega) (by simpa using hcommand 0 (Nat.succ_pos _))
    have hrest := ih (k := k + 1) hfirst
      (fun i x => by rw [hserial, Function.update_self]; omega)
      (by rw [Function.update_self]; omega)
      (fun i hi => by
        have := hcommand (i + 1) (Nat.succ_lt_succ hi)
        rw [Function.update_self]
        rw [List.getElem_cons_succ] at this
        rw [show k + 1 + i = k + (i + 1) by omega,
          show S c + 1 + 1 + i = S c + 1 + (i + 1) by omega]
        exact this)
    rw [Function.update_self, Function.update_idem] at hrest
    rw [List.length_cons, show S c + (bodies.length + 1) = S c + 1 + bodies.length by omega]
    exact hrest

/-- The loop over the fragments of a packet. -/
theorem fragmentLoop_eq (p : Packet) (start count fuel k : Nat) (hf : 0 < f)
    (hfuel : p.length ≤ k * f + fuel) :
    fragmentLoop p start count fuel k (k * f) f =
      (List.range' k ((p.length + f - 1) / f - k)).map fun k =>
        .sendFragment start count k p.length (k * f) ((p.drop (k * f)).take f) := by
  -- nothing is left when the offset has reached the end of the packet
  have hdone : ∀ fuel k f', fragmentLoop p start count fuel k p.length f' = [] := by
    intro fuel k f'
    cases fuel with
    | zero => rfl
    | succ fuel => rw [fragmentLoop, if_neg (Nat.lt_irrefl _)]
  induction fuel generalizing k with
  | zero =>
    have hle : (p.length + f - 1) / f ≤ k := by
      rw [Nat.div_le_iff_le_mul_add_pred hf, Nat.mul_comm]
      omega
    rw [Nat.sub_eq_zero_of_le hle]
    rfl
  | succ fuel ih =>
    rw [fragmentLoop]
    by_cases hlt : k * f < p.length
    · have hk : k < (p.length + f - 1) / f := by
        rw [Nat.lt_iff_add_one_le, Nat.le_div_iff_mul_le hf, Nat.succ_mul]
        omega
      obtain ⟨m, hm⟩ : ∃ m, (p.length + f - 1) / f - k = m + 1 :=
        ⟨(p.length + f - 1) / f - k - 1, by omega⟩
      rw [if_pos hlt, hm, List.range'_succ, List.map_cons]
      by_cases hlast : p.length - k * f < f
      · -- the last fragment is as long as the rest of the packet
        have hm0 : m = 0 := by
          have hdiv : (p.length + f - 1) / f ≤ k + 1 := by
            rw [Nat.div_le_iff_le_mul_add_pred hf, Nat.mul_comm, Nat.succ_mul]
            omega
          omega
        have htake : (p.drop (k * f)).take (p.length - k * f) = (p.drop (k * f)).take f := by
          rw [List.take_of_length_le (by rw [List.length_drop]), List.take_of_length_le]
          rw [List.length_drop]
          omega
        simp only [if_pos hlast]
        rw [htake, hm0, Nat.add_sub_cancel' hlt.le, hdone]
        rfl
      · simp only [if_neg hlast]
        rw [show k * f + f = (k + 1) * f from (Nat.succ_mul k f).symm,
          ih (k + 1) (by rw [Nat.succ_mul]; omega),
          show (p.length + f - 1) / f - (k + 1) = m by omega]
    · have hle : (p.length + f - 1) / f ≤ k := by
        rw [Nat.div_le_iff_le_mul_add_pred hf, Nat.mul_comm]
        omega
      rw [if_neg hlt, Nat.sub_eq_zero_of_le hle]
      rfl

/-- The commands of the next packet. -/
theorem isCommand_next {ps : List Packet} {p : Packet} {n k : Nat} (hn : n = numbers f ps ps.length)
    (hk : k < commandCount f p) :
    IsCommand f (ps ++ [p]) (n + 1 + k) (commandOf f (n + 1) p k) := by
  have hstart : start f (ps ++ [p]) ps.length = n + 1 := by
    rw [start_eq, numbers_append (Nat.le_refl _), hn]
  refine ⟨ps.length, k, p, ⟨by simp, hk, ?_⟩, ?_⟩
  · rw [hstart]
  · rw [hstart]

theorem sound_peerSend {maximumPacketSize : Nat} {p : Packet} (hf : 0 < f)
    (h : SoundSender f packets S F A s) (hS : S c = numbers f (packets c) (packets c).length)
    (hsend : peerSend maximumPacketSize f s c p (fun k x => ⟨c, S c + 1 + k, x⟩) = some s') :
    SoundSender f (addPacket packets c p) (Function.update S c (S c + commandCount f p)) F A
      s' := by
  have hmono : SoundSender f (addPacket packets c p) S F A s := h.mono fun _ hb => hb.addPacket
  have hnext : ∀ k < commandCount f p, ∀ x : Command, x = commandOf f (S c + 1) p k →
      IsNumbered f (addPacket packets c p) ⟨c, S c + 1 + k, x⟩ := by
    rintro k hk _ rfl
    unfold IsNumbered addPacket
    dsimp only
    rw [Function.update_self]
    exact isCommand_next hS hk
  unfold peerSend at hsend
  split at hsend
  · cases hsend
  split at hsend
  · rename_i hlt
    dsimp only at hsend
    split at hsend
    · cases hsend
    obtain rfl := Option.some.inj hsend
    have hloop := fragmentLoop_eq p ((S c + 1) % 65536) ((p.length + f - 1) / f)
      p.length 0 hf (Nat.le_add_left ..)
    rw [Nat.zero_mul, Nat.sub_zero] at hloop
    have hstart : ((s.channels c).outgoingReliableSequenceNumber + 1) % U16 =
        (S c + 1) % 65536 := by
      rw [(h.windows c).number, U16]
      omega
    rw [hstart, hloop]
    have hall := sound_setupAll (k := 0) (fun k x => ⟨c, S c + 1 + k, x⟩)
      ((List.range' 0 ((p.length + f - 1) / f)).map fun k =>
        Body.sendFragment ((S c + 1) % 65536) ((p.length + f - 1) / f) k p.length (k * f)
          ((p.drop (k * f)).take f)) hmono
      (fun _ _ => rfl) (fun _ _ => rfl) (Nat.zero_le _) (fun i hi => by
        rw [List.length_map, List.length_range'] at hi
        rw [Nat.zero_add]
        refine hnext i (by rwa [commandCount_of_lt hlt]) _ ?_
        rw [List.getElem_map, List.getElem_range', commandOf, if_neg (Nat.not_le.mpr hlt),
          commandCount_of_lt hlt]
        simp)
    rw [List.length_map, List.length_range'] at hall
    rw [commandCount_of_lt hlt]
    exact hall
  · rename_i hle
    obtain rfl := Option.some.inj hsend
    rw [commandCount_of_le (Nat.not_lt.mp hle)]
    exact sound_setupAll (k := 0) (fun k x => ⟨c, S c + 1 + k, x⟩) [Body.sendReliable p]
      hmono (fun _ _ => rfl) (fun _ _ => rfl) (Nat.zero_le _)
      (fun i hi => by
        obtain rfl : i = 0 := Nat.lt_one_iff.mp hi
        refine hnext 0 (by rw [commandCount_of_le (Nat.not_lt.mp hle)]; exact Nat.one_pos) _ ?_
        rw [commandOf, if_pos (Nat.not_lt.mp hle)]
        rfl)

/-! ## Sending -/

/-- Once one of its flags is set, the loop keeps all that follows. -/
theorem sendLoop_stop {h : Pacing} (queue : List Outgoing) (st : Sending Numbered)
    (hflag : st.windowWrap = true ∨ st.windowExceeded = true) :
    (sendLoop h queue st).kept = st.kept ++ queue ∧
      (sendLoop h queue st).channels = st.channels ∧
      (sendLoop h queue st).sentReliableCommands = st.sentReliableCommands ∧
      (sendLoop h queue st).commands = st.commands := by
  induction queue generalizing st with
  | nil => exact ⟨(List.append_nil _).symm, rfl, rfl, rfl⟩
  | cons o queue ih =>
    rw [sendLoop]
    dsimp only
    split
    · obtain ⟨hkept, hrest⟩ := ih ({ st with
        windowWrap := st.windowWrap || wraps (st.channels o.channelID) o, kept := st.kept ++ [o] })
        (Or.inl (by assumption))
      exact ⟨hkept.trans (by simp), hrest⟩
    · rename_i hwrap
      have hexceeded : st.windowExceeded = true := by
        rcases hflag with h | h
        · simp [h] at hwrap
        · exact h
      rw [if_pos (by simp [hexceeded])]
      obtain ⟨hkept, hrest⟩ := ih ({ st with
        windowExceeded := st.windowExceeded ||
          decide (max h.windowSize h.mtu < st.reliableDataInTransit + o.fragmentLength)
        kept := st.kept ++ [o] }) (Or.inr (by simp [hexceeded]))
      exact ⟨hkept.trans (by simp), hrest⟩

/-- A command that is sent goes from the front of the queue to the back of the sent ones. -/
theorem proper_sent {o o' : Outgoing} {sent queue : List Outgoing}
    (h : ∀ x ∈ sent ++ o :: queue, Proper f packets x) (ho' : Proper f packets o') :
    ∀ x ∈ sent ++ [o'] ++ queue, Proper f packets x := by
  intro x hx
  rw [List.append_assoc, List.singleton_append] at hx
  rcases List.mem_append.mp hx with hx | hx
  · exact h x (List.mem_append_left _ hx)
  rcases List.mem_cons.mp hx with rfl | hx
  · exact ho'
  · exact h x (List.mem_append_right _ (List.mem_cons_of_mem _ hx))

theorem flight_sent {o o' : Outgoing} (sent queue : List Outgoing)
    (hchannel : o'.channelID = o.channelID) (hserial : o'.command.serial = o.command.serial)
    (hattempts : 0 < o'.sendAttempts) (c : Nat) :
    flight c (sent ++ [o']) queue =
      serials c true sent ++ (if o.channelID = c then [o.command.serial] else []) ++
        serials c true queue := by
  have hiff : (o'.channelID = c ∧ (0 < o'.sendAttempts ↔ true = true)) ↔ o.channelID = c := by
    simp [hchannel, hattempts]
  rw [flight, serials_append, serials_cons, serials_nil, if_congr hiff rfl rfl, hserial]

/-- A command is put into a datagram. -/
theorem sound_sendCommand {h : Pacing} {st : Sending Numbered} {queue : List Outgoing}
    (hs : Sound f packets S F A st.channels st.sentReliableCommands (o :: queue))
    (hwraps : wraps (st.channels o.channelID) o = false) :
    ∃ F', (∀ c, F c ≤ F' c) ∧
      Sound f packets S F' A (sendCommand h st o).channels
        (sendCommand h st o).sentReliableCommands queue ∧
      0 < o.command.serial ∧ o.command.serial ≤ F' o.channelID := by
  have hproper := hs.proper o (by simp)
  let o' : Outgoing := { o with
    sendAttempts := o.sendAttempts + 1
    roundTripTimeout :=
      if decide (o.roundTripTimeout = 0) then h.roundTripTimeout else o.roundTripTimeout
    roundTripTimeoutLimit :=
      if decide (o.roundTripTimeout = 0) then (h.timeoutLimit * h.roundTripTimeout) % U32
      else o.roundTripTimeoutLimit
    sentTime := h.serviceTime }
  have hsent : (sendCommand h st o).sentReliableCommands = st.sentReliableCommands ++ [o'] := rfl
  have hproper' : ∀ x ∈ st.sentReliableCommands ++ [o'] ++ queue, Proper f packets x :=
    proper_sent hs.proper ⟨hproper.channel, hproper.number, hproper.command⟩
  have hattempts' : ∀ x ∈ st.sentReliableCommands ++ [o'], 0 < x.sendAttempts := by
    intro x hx
    rcases List.mem_append.mp hx with hx | hx
    · exact hs.attempts x hx
    · rw [List.mem_singleton.mp hx]
      exact Nat.succ_pos _
  have hflight' : ∀ c, flight c (st.sentReliableCommands ++ [o']) queue =
      serials c true st.sentReliableCommands ++
        (if o.channelID = c then [o.command.serial] else []) ++ serials c true queue :=
    flight_sent st.sentReliableCommands queue rfl rfl (Nat.succ_pos _)
  by_cases hfirst : o.sendAttempts < 1
  · -- its number is the next one, and its window counts one more
    have hzero : ¬ 0 < o.sendAttempts := by omega
    have hwaiting : waiting o.channelID (o :: queue) = o.command.serial ::
        waiting o.channelID queue := by
      rw [waiting, serials_cons, if_pos ⟨rfl, by simp [hzero]⟩]
      rfl
    have hw := hs.windows o.channelID
    rw [hwaiting] at hw
    obtain ⟨hnext, hw'⟩ := hw.send hproper.number hfirst hwraps
    have hchannels : (sendCommand h st o).channels = Function.update st.channels o.channelID
        ((st.channels o.channelID).use (o.reliableSequenceNumber / 4096)) := if_pos hfirst
    have hskip : ∀ c, serials c true (o :: queue) = serials c true queue := fun c => by
      rw [serials_cons, if_neg (by simp [hzero])]
    refine ⟨Function.update F o.channelID (F o.channelID + 1), fun c => ?_,
      ⟨hproper', hattempts', fun c => ?_⟩, ?_, ?_⟩
    · by_cases hc : c = o.channelID
      · subst hc
        rw [Function.update_self]
        exact Nat.le_succ _
      · rw [Function.update_of_ne hc]
    · rw [hsent, hflight', hchannels]
      by_cases hc : c = o.channelID
      · subst hc
        rw [Function.update_self, Function.update_self, if_pos rfl]
        refine hw'.perm ?_
        rw [flight, hskip, List.append_assoc, List.singleton_append]
        exact List.perm_middle.symm
      · rw [Function.update_of_ne hc, Function.update_of_ne hc, if_neg (Ne.symm hc),
          List.append_nil]
        have hwc := hs.windows c
        rw [flight, hskip, waiting, serials_cons, if_neg (fun hand => hc hand.1.symm)] at hwc
        exact hwc
    · omega
    · rw [Function.update_self]
      exact hnext.le
  · -- it is sent again
    have hpos : 0 < o.sendAttempts := by omega
    have hchannels : (sendCommand h st o).channels = st.channels := if_neg hfirst
    have hmem : o.command.serial ∈ flight o.channelID st.sentReliableCommands (o :: queue) := by
      rw [flight, serials_cons, if_pos ⟨rfl, by simp [hpos]⟩]
      simp
    obtain ⟨h0, hF, -⟩ := (hs.windows o.channelID).bounds _ hmem
    refine ⟨F, fun _ => Nat.le_refl _, ⟨hproper', hattempts', fun c => ?_⟩, h0, hF⟩
    have hwaiting : waiting c (o :: queue) = waiting c queue := by
      rw [waiting, serials_cons, if_neg (by simp [hpos])]
      rfl
    rw [hsent, hflight', hchannels]
    have hwc := hs.windows c
    rw [hwaiting, flight, serials_cons] at hwc
    by_cases hc : o.channelID = c
    · rw [if_pos ⟨hc, by simp [hpos]⟩] at hwc
      rw [if_pos hc, List.append_assoc]
      exact hwc
    · rw [if_neg (fun hand => hc hand.1)] at hwc
      rw [if_neg hc, List.append_nil]
      exact hwc

/-- The loop sends commands from the front of the queue. -/
theorem sendLoop_spec {h : Pacing} (queue : List Outgoing) (st : Sending Numbered)
    (hkept : st.kept = []) (hwrap : st.windowWrap = false) (hexceeded : st.windowExceeded = false)
    (hs : Sound f packets S F A st.channels st.sentReliableCommands queue) :
    ∃ F', (∀ c, F c ≤ F' c) ∧
      Sound f packets S F' A (sendLoop h queue st).channels
        (sendLoop h queue st).sentReliableCommands (sendLoop h queue st).kept ∧
      ∀ x ∈ (sendLoop h queue st).commands, x ∈ st.commands ∨
        IsNumbered f packets x ∧ 0 < x.serial ∧ x.serial ≤ F' x.channelID := by
  induction queue generalizing st F with
  | nil =>
    refine ⟨F, fun _ => Nat.le_refl _, ?_, fun x hx => Or.inl hx⟩
    rw [sendLoop, hkept]
    exact hs
  | cons o queue ih =>
    rw [sendLoop]
    dsimp only
    split
    · obtain ⟨hk, hc, hsent, hcommands⟩ := sendLoop_stop (h := h) queue ({ st with
        windowWrap := st.windowWrap || wraps (st.channels o.channelID) o, kept := st.kept ++ [o] })
        (Or.inl (by assumption))
      rw [hk, hc, hsent, hcommands, hkept]
      exact ⟨F, fun _ => Nat.le_refl _, hs, fun x hx => Or.inl hx⟩
    split
    · obtain ⟨hk, hc, hsent, hcommands⟩ := sendLoop_stop (h := h) queue ({ st with
        windowExceeded := st.windowExceeded ||
          decide (max h.windowSize h.mtu < st.reliableDataInTransit + o.fragmentLength)
        kept := st.kept ++ [o] }) (Or.inr (by assumption))
      rw [hk, hc, hsent, hcommands, hkept]
      exact ⟨F, fun _ => Nat.le_refl _, hs, fun x hx => Or.inl hx⟩
    split
    · rw [hkept]
      exact ⟨F, fun _ => Nat.le_refl _, hs, fun x hx => Or.inl hx⟩
    · rename_i hnowrap _ _
      obtain ⟨F₁, hF₁, hs₁, hpos, hle⟩ := sound_sendCommand (h := h) hs
        (by simpa [hwrap] using hnowrap)
      obtain ⟨F₂, hF₂, hs₂, hcommands⟩ := ih (sendCommand h st o) hkept hwrap hexceeded hs₁
      refine ⟨F₂, fun c => (hF₁ c).trans (hF₂ c), hs₂, fun x hx => ?_⟩
      rcases hcommands x hx with hx | hx
      · rcases List.mem_append.mp hx with hx | hx
        · exact Or.inl hx
        · have hproper := hs.proper o (by simp)
          rw [List.mem_singleton.mp hx]
          refine Or.inr ⟨hproper.command, hpos, hle.trans ?_⟩
          rw [hproper.channel]
          exact hF₂ _
      · exact Or.inr hx

theorem sound_sendReliableOutgoingCommands {h : Pacing} {x y z : Nat}
    (hs : SoundSender f packets S F A s) :
    ∃ F', (∀ c, F c ≤ F' c) ∧
      SoundSender f packets S F' A (sendReliableOutgoingCommands h x y z s).1 ∧
      ∀ b ∈ (sendReliableOutgoingCommands h x y z s).2,
        IsNumbered f packets b ∧ 0 < b.serial ∧ b.serial ≤ F' b.channelID := by
  obtain ⟨F', hF, hs', hcommands⟩ := sendLoop_spec (h := h)
    s.outgoingReliableCommands
    { kept := [], channels := s.channels, sentReliableCommands := s.sentReliableCommands
      reliableDataInTransit := s.reliableDataInTransit, windowWrap := false
      windowExceeded := false, commandCount := x, bufferCount := y, packetSize := z
      commands := [] } rfl rfl rfl hs
  exact ⟨F', hF, hs', fun b hb => (hcommands b hb).resolve_left List.not_mem_nil⟩

/-! ## Sending again -/

/-- A command that has waited too long. -/
def lost (o : Outgoing) : Outgoing := { o with roundTripTimeout := (o.roundTripTimeout * 2) % U32 }

theorem timeoutLoop_spec {t : Timing} {e i e' i' : Nat} {moved kept : List Outgoing}
    (h : timeoutLoop t sent e i = some (moved, kept, e', i')) :
    ∃ m, sent.Perm (kept ++ m) ∧ moved = m.map lost := by
  induction sent generalizing e i e' i' moved kept with
  | nil =>
    rw [timeoutLoop] at h
    cases h
    exact ⟨[], List.Perm.refl _, rfl⟩
  | cons o sent ih =>
    rw [timeoutLoop] at h
    split at h
    · split at h
      · cases h
      · rename_i hrest
        cases h
        obtain ⟨m, hperm, rfl⟩ := ih hrest
        exact ⟨m, hperm.cons o, rfl⟩
    · dsimp only at h
      generalize (if e = 0 ∨ timeLess o.sentTime e = true then o.sentTime else e) = e₁ at h
      split at h
      · cases h
      split at h
      · cases h
      · rename_i hrest
        cases h
        obtain ⟨m, hperm, rfl⟩ := ih hrest
        exact ⟨o :: m, (hperm.cons o).trans List.perm_middle.symm, rfl⟩

theorem sound_checkTimeouts {t : Timing} (h : SoundSender f packets S F A s)
    (hcheck : checkTimeouts t s = some s') : SoundSender f packets S F A s' := by
  unfold checkTimeouts at hcheck
  split at hcheck
  · cases hcheck
  rename_i moved kept e i hloop
  cases hcheck
  obtain ⟨m, hperm, rfl⟩ := timeoutLoop_spec hloop
  have hserials : ∀ c b, serials c b (m.map lost) = serials c b m := fun c b =>
    serials_map (fun _ => rfl) (fun _ => rfl) fun _ => rfl
  refine ⟨fun o ho => ?_, fun o ho => h.attempts o (hperm.mem_iff.mpr (List.mem_append_left _ ho)),
    fun c => ?_⟩
  · rcases List.mem_append.mp ho with ho | ho
    · exact h.proper o (List.mem_append_left _ (hperm.mem_iff.mpr (List.mem_append_left _ ho)))
    rcases List.mem_append.mp ho with ho | ho
    · obtain ⟨o, hm, rfl⟩ := List.mem_map.mp ho
      have hproper := h.proper o
        (List.mem_append_left _ (hperm.mem_iff.mpr (List.mem_append_right _ hm)))
      exact ⟨hproper.channel, hproper.number, hproper.command⟩
    · exact h.proper o (List.mem_append_right _ ho)
  · have hnone : serials c false m = [] := serials_eq_nil fun o ho => by
      have := h.attempts o (hperm.mem_iff.mpr (List.mem_append_right _ ho))
      simp only [Bool.false_eq_true, iff_false, not_not]
      exact this
    rw [waiting, serials_append, hserials, hnone, List.nil_append, flight, serials_append, hserials,
      ← List.append_assoc, ← serials_append]
    exact (h.windows c).perm ((serials_perm hperm).append_right _)

/-! ## Acknowledgements -/

/-- The first command that is found is the one that is taken out. -/
theorem eraseP_of_find? {p : Outgoing → Bool} (h : l.find? p = some o) :
    p o = true ∧ ∃ l₁ l₂, l = l₁ ++ o :: l₂ ∧ l.eraseP p = l₁ ++ l₂ := by
  obtain ⟨hp, l₁, l₂, rfl, hnot⟩ := List.find?_eq_some_iff_append.mp h
  refine ⟨hp, l₁, l₂, rfl, ?_⟩
  rw [List.eraseP_append_right _ (fun x hx => by simpa using hnot x hx),
    List.eraseP_cons_of_pos hp]

/-- A command in flight is taken out of the queues. -/
theorem Sound.acknowledge {n : Nat} {sent' outgoing' : List Outgoing}
    (h : Sound f packets S F A channels sent outgoing) (hn : n ≤ F c)
    (hrecent : ∀ m ∈ flight c sent outgoing, m < n + 65536)
    (hanswers : answers (n % 65536) c o = true) (hattempts : 0 < o.sendAttempts)
    (hmem : o ∈ sent ++ outgoing)
    (hsub : ∀ x ∈ sent' ++ outgoing', x ∈ sent ++ outgoing) (hsent : ∀ x ∈ sent', x ∈ sent)
    (hflight : ∀ c', (flight c' sent outgoing).Perm
      (serials c' true [o] ++ flight c' sent' outgoing'))
    (hwaiting : ∀ c', waiting c' outgoing' = waiting c' outgoing) :
    Sound f packets S F (fun c' m => (c' = c ∧ m = n) ∨ A c' m)
      (Function.update channels c ((channels c).release (n % 65536 / 4096))) sent' outgoing' := by
  rw [answers, Bool.and_eq_true, beq_iff_eq, beq_iff_eq] at hanswers
  obtain ⟨hnumber, rfl⟩ := hanswers
  have hone : ∀ c', serials c' true [o] = if o.channelID = c' then [o.command.serial] else [] := by
    intro c'
    rw [serials_cons, serials_nil]
    simp [hattempts]
  refine ⟨fun x hx => h.proper x (hsub x hx), fun x hx => h.attempts x (hsent x hx), fun c' => ?_⟩
  have hw := (h.windows c').perm (hflight c')
  rw [hone, ← hwaiting] at hw
  by_cases hc : c' = o.channelID
  · subst hc
    rw [if_pos rfl, List.singleton_append] at hw
    -- the number tells which command it is
    have hserial : o.command.serial = n := by
      have hin : o.command.serial ∈ flight o.channelID sent outgoing := by
        rw [(hflight o.channelID).mem_iff, hone, if_pos rfl]
        exact List.mem_append_left _ List.mem_cons_self
      refine hw.eq_of_mod_eq List.mem_cons_self hn (hrecent _ hin) ?_
      rw [← (h.proper o hmem).number, hnumber]
    rw [hserial] at hw
    rw [Function.update_self]
    simpa using hw.acknowledge
  · rw [if_neg (Ne.symm hc), List.nil_append] at hw
    rw [Function.update_of_ne hc]
    simpa [hc] using hw

theorem sound_removeSentReliableCommand {n : Nat} (h : SoundSender f packets S F A s)
    (hn : n ≤ F c)
    (hrecent : ∀ m ∈ flight c s.sentReliableCommands s.outgoingReliableCommands, m < n + 65536) :
    ∃ A', (∀ c' m, A' c' m → (c' = c ∧ m = n) ∨ A c' m) ∧
      SoundSender f packets S F A' (removeSentReliableCommand s (n % 65536) c) := by
  unfold removeSentReliableCommand
  split
  · rename_i o hfind
    obtain ⟨hanswers, l₁, l₂, hl, herase⟩ := eraseP_of_find? hfind
    refine ⟨_, fun _ _ h => h, h.acknowledge (o := o) hn hrecent hanswers
      (h.attempts o (by rw [hl]; simp)) (by rw [hl]; simp) ?_ ?_ ?_ fun _ => rfl⟩
    · intro x hx
      rw [hl]
      rw [herase] at hx
      simp only [List.mem_append, List.mem_cons] at hx ⊢
      tauto
    · intro x hx
      rw [hl]
      rw [herase] at hx
      simp only [List.mem_append, List.mem_cons] at hx ⊢
      tauto
    · intro c'
      rw [herase, flight, flight, hl, ← List.append_assoc]
      refine List.Perm.append_right _ ?_
      rw [← serials_append]
      exact serials_perm List.perm_middle
  split
  · rename_i _ o hfind
    obtain ⟨hanswers, l₁, l₂, hl, -⟩ := eraseP_of_find? hfind
    have hattempts : 0 < o.sendAttempts := by
      have := List.mem_takeWhile_imp (List.mem_of_find?_eq_some hfind)
      exact of_decide_eq_true this
    have hfind' : s.outgoingReliableCommands.find? (answers (n % 65536) c) = some o := by
      rw [← List.takeWhile_append_dropWhile (p := fun o => decide (1 ≤ o.sendAttempts))
        (l := s.outgoingReliableCommands), List.find?_append, hfind]
      rfl
    obtain ⟨-, l₃, l₄, hl', herase⟩ := eraseP_of_find? hfind'
    refine ⟨_, fun _ _ h => h, h.acknowledge (o := o) hn hrecent hanswers hattempts
      (by rw [hl']; simp) ?_ (fun _ h => h) ?_ ?_⟩
    · intro x hx
      rw [hl']
      rw [herase] at hx
      simp only [List.mem_append, List.mem_cons] at hx ⊢
      tauto
    · intro c'
      rw [herase, flight, flight, hl']
      refine List.Perm.trans ?_ (List.perm_append_comm_assoc _ _ _)
      refine List.Perm.append_left _ ?_
      rw [← serials_append]
      exact serials_perm List.perm_middle
    · intro c'
      rw [herase, waiting, waiting, hl', serials_append, serials_append, serials_cons,
        if_neg (by simp [hattempts])]
  · exact ⟨A, fun _ _ h => Or.inr h, h⟩

end Enet

end Zuckerserv

import Zuckerserv.Enet.Delivery
import Zuckerserv.Enet.Flight
import Zuckerserv.Lib.Machine
import Mathlib.Data.List.Nodup

/-!
# Two peers and the network between them

One peer sends packets on several channels, the other receives them. The network may lose,
repeat, delay and reorder what it is given, the commands as well as the acknowledgements.

* `Link.step` — one step of either peer or of the network.
* `Timely` — what the network must not do: deliver a thing when the numbers have gone around.
* `link_inOrder` — on each channel the packets delivered are a beginning of those sent.
* `link_complete` — when the sender has nothing left of a channel, everything has been delivered.
* `link_windows` — the counts of the windows are exact, and the numbers in flight differ.
-/

namespace Zuckerserv

namespace Enet

/-- The peers of a connection, and what has been given to the network. -/
structure Link where
  /-- The connection has not been given up. -/
  connected : Bool
  sender : Sender Numbered
  receivers : Nat → Receiver
  /-- The packets that have been queued on each channel. -/
  packets : Nat → List Packet
  /-- The commands that have been put into a datagram. -/
  wire : List Numbered
  /-- The commands that have been acknowledged by the receiving end. -/
  acknowledgements : List Numbered

/-- The number of the first command of its packet. -/
def Numbered.first (x : Numbered) : Nat :=
  match x.command.body with
  | .sendReliable _ => x.serial
  | .sendFragment _ _ fragmentNumber _ _ _ => x.serial - fragmentNumber

/-- What is fixed while a connection lasts. -/
structure Setup where
  /-- The size of a fragment. -/
  f : Nat
  /-- `maximumPacketSize` of the sending end. -/
  maximumPacketSize : Nat
  /-- The receiving end. -/
  host : Host

/-- What can happen. -/
inductive Action
  | send (channelID : Nat) (p : Packet)
  | datagram (h : Pacing) (commandCount bufferCount packetSize : Nat)
  | checkTimeouts (t : Timing)
  | deliver (i : Nat) (full : Bool)
  | acknowledge (i : Nat)
  | disconnectLater

namespace Link

/-- A connection that has just been established. -/
def init : Link where
  connected := true
  sender :=
    { channels := fun _ =>
        { outgoingReliableSequenceNumber := 0, reliableWindows := fun _ => 0
          usedReliableWindows := 0 }
      outgoingReliableCommands := [], sentReliableCommands := []
      reliableDataInTransit := 0, earliestTimeout := 0 }
  receivers _ :=
    { state := .connected, incomingReliableSequenceNumber := 0, incomingReliableCommands := []
      dispatchedCommands := [] }
  packets _ := []
  wire := []
  acknowledgements := []

/-- The application queues a packet; the labels go on from the numbers of the channel. -/
def send (g : Setup) (L : Link) (c : Nat) (p : Packet) : Link :=
  let number := numbers g.f (L.packets c) (L.packets c).length
  match peerSend g.maximumPacketSize g.f L.sender c p (fun k x => ⟨c, number + 1 + k, x⟩) with
  | none => L
  | some sender => { L with sender, packets := addPacket L.packets c p }

/-- A datagram of the sending end. -/
def datagram (L : Link) (h : Pacing) (commandCount bufferCount packetSize : Nat) : Link :=
  let (sender, commands) :=
    sendReliableOutgoingCommands h commandCount bufferCount packetSize L.sender
  { L with sender, wire := L.wire ++ commands }

/-- The sending end looks for commands to send again. -/
def checkTimeouts (L : Link) (t : Timing) : Link :=
  match Enet.checkTimeouts t L.sender with
  | none => { L with connected := false }
  | some sender => { L with sender }

/-- A command arrives. -/
def deliver (g : Setup) (L : Link) (i : Nat) (full : Bool) : Link :=
  match L.wire[i]? with
  | none => L
  | some x =>
    let (r, acknowledged) := receive g.host full (L.receivers x.channelID) x.command
    { L with
      receivers := Function.update L.receivers x.channelID r
      acknowledgements :=
        if acknowledged then L.acknowledgements ++ [x] else L.acknowledgements }

/-- An acknowledgement arrives. -/
def acknowledge (L : Link) (i : Nat) : Link :=
  match L.acknowledgements[i]? with
  | none => L
  | some x =>
    { L with
      sender := removeSentReliableCommand L.sender x.command.reliableSequenceNumber x.channelID }

/-- The receiving end takes nothing more. -/
def disconnectLater (L : Link) : Link :=
  { L with receivers := fun c => { L.receivers c with state := .disconnectLater } }

/-- One step. -/
def step (g : Setup) (L : Link) (a : Action) : Link :=
  if L.connected then
    match a with
    | .send c p => L.send g c p
    | .datagram h x y z => L.datagram h x y z
    | .checkTimeouts t => L.checkTimeouts t
    | .deliver i full => L.deliver g i full
    | .acknowledge i => L.acknowledge i
    | .disconnectLater => L.disconnectLater
  else L

/-- The packets a channel has delivered. -/
def delivered (L : Link) (c : Nat) : List Packet := (L.receivers c).dispatchedCommands.map (·.data)

end Link

/-- The network delivers no command whose packet begins more than nine windows before the number
the receiver has reached, and no acknowledgement a whole cycle behind a command in flight. -/
def Timely (f : Nat) (L : Link) : Action → Prop
  | .deliver i _ => ∀ x ∈ L.wire[i]?,
    numbers f (L.packets x.channelID) (L.delivered x.channelID).length ≤ x.first + 36864
  | .acknowledge i => ∀ x ∈ L.acknowledgements[i]?,
    ∀ m ∈ flight x.channelID L.sender.sentReliableCommands L.sender.outgoingReliableCommands,
      m < x.serial + 65536
  | _ => True

instance (f : Nat) (L : Link) : (a : Action) → Decidable (Timely f L a)
  | .deliver i _ => inferInstanceAs (Decidable (∀ x ∈ L.wire[i]?, _))
  | .acknowledge i => inferInstanceAs (Decidable (∀ x ∈ L.acknowledgements[i]?, _))
  | .send _ _ | .datagram _ _ _ _ | .checkTimeouts _ | .disconnectLater =>
    inferInstanceAs (Decidable True)

/-- The invariant of a connection. On channel `c` the numbers up to `F c` have been sent, those in
`A c` are acknowledged, and `D c` packets have been delivered, with `Q c` in the queue. -/
structure LinkInv (f : Nat) (L : Link) (F : Nat → Nat) (A : Nat → Nat → Prop) (D : Nat → Nat)
    (Q : Nat → List (Nat × Incoming)) : Prop where
  sender : SoundSender f L.packets (fun c => numbers f (L.packets c) (L.packets c).length) F A
    L.sender
  wire : ∀ x ∈ L.wire, IsNumbered f L.packets x ∧ x.serial ≤ F x.channelID
  receivers : ∀ c, Delivered f (L.packets c) (L.receivers c) (D c) (Q c)
  acknowledgements : ∀ x ∈ L.acknowledgements,
    IsNumbered f L.packets x ∧ x.serial ≤ F x.channelID ∧
      x.serial / 4096 < numbers f (L.packets x.channelID) (D x.channelID) / 4096 + 7 ∧
      ((L.receivers x.channelID).state = .connected →
        Arrived f (L.packets x.channelID) (D x.channelID) (Q x.channelID) x.serial)
  acked : ∀ c n, A c n → n / 4096 < numbers f (L.packets c) (D c) / 4096 + 7 ∧
    ((L.receivers c).state = .connected → Arrived f (L.packets c) (D c) (Q c) n)

variable {f : Nat} {g : Setup} {L : Link} {F D : Nat → Nat} {A : Nat → Nat → Prop}
  {Q : Nat → List (Nat × Incoming)} {c : Nat} {p : Packet}

theorem linkInv_init : LinkInv f Link.init (fun _ => 0) (fun _ _ => False) (fun _ => 0)
    (fun _ => []) where
  sender := ⟨fun o ho => absurd ho List.not_mem_nil, fun o ho => absurd ho List.not_mem_nil,
    fun _ => windows_init⟩
  wire x hx := absurd hx List.not_mem_nil
  receivers c := ⟨⟨Nat.zero_le _, rfl, rfl, ⟨List.Pairwise.nil, by simp⟩, rfl⟩, by simp⟩
  acknowledgements x hx := absurd hx List.not_mem_nil
  acked c n h := h.elim

/-- The receiver has reached the last number of what it has delivered. -/
theorem LinkInv.length_delivered (h : LinkInv f L F A D Q) (c : Nat) :
    (L.delivered c).length = D c := by
  rw [Link.delivered, (h.receivers c).dispatched, List.length_take]
  exact Nat.min_eq_left (h.receivers c).le

theorem IsNumbered.number {packets : Nat → List Packet} {x : Numbered}
    (h : IsNumbered f packets x) : x.command.reliableSequenceNumber = x.serial % 65536 := by
  obtain ⟨j, k, p, hplace, heq⟩ := h
  rw [heq, hplace.number]
  rfl

/-- The sender is less than eight windows ahead of the receiver. -/
theorem LinkInv.ahead (h : LinkInv f L F A D Q) (c : Nat) :
    F c / 4096 ≤ numbers f (L.packets c) (D c) / 4096 + 7 := by
  rcases (h.sender.windows c).entered with hone | ⟨n, hn, hle⟩
  · omega
  · have := (h.acked c n hn).1
    omega

/-! ## Steps of the sending end -/

theorem numbers_addPacket (packets : Nat → List Packet) :
    (fun c' => numbers f (addPacket packets c p c') (addPacket packets c p c').length) =
      Function.update (fun c' => numbers f (packets c') (packets c').length) c
        (numbers f (packets c) (packets c).length + commandCount f p) := by
  funext c'
  by_cases hc : c' = c
  · subst hc
    rw [Function.update_self, addPacket, Function.update_self, List.length_append,
      List.length_singleton, numbers_succ (p := p) (by simp), numbers_append (Nat.le_refl _)]
  · rw [Function.update_of_ne hc, addPacket, Function.update_of_ne hc]

/-- Another packet leaves what has been delivered as it was. -/
theorem numbers_delivered (h : LinkInv f L F A D Q) (c' : Nat) :
    numbers f (addPacket L.packets c p c') (D c') = numbers f (L.packets c') (D c') := by
  unfold addPacket
  by_cases hc : c' = c
  · subst hc
    rw [Function.update_self, numbers_append (h.receivers c').le]
  · rw [Function.update_of_ne hc]

theorem arrived_addPacket {n c' d : Nat} {q : List (Nat × Incoming)}
    (h : Arrived f (L.packets c') d q n) : Arrived f (addPacket L.packets c p c') d q n := by
  unfold addPacket
  by_cases hc : c' = c
  · subst hc
    rw [Function.update_self]
    exact h.append
  · rwa [Function.update_of_ne hc]

theorem linkInv_send (hf : 0 < g.f) (h : LinkInv g.f L F A D Q) :
    LinkInv g.f (L.send g c p) F A D Q := by
  unfold Link.send
  dsimp only
  split
  · exact h
  rename_i sender hsend
  refine ⟨?_, fun x hx => ?_, fun c' => ?_, fun x hx => ?_, fun c' n hn => ?_⟩
  · dsimp only
    rw [numbers_addPacket]
    exact sound_peerSend hf h.sender rfl hsend
  · exact ⟨(h.wire x hx).1.addPacket, (h.wire x hx).2⟩
  · unfold addPacket
    by_cases hc : c' = c
    · subst hc
      dsimp only
      rw [Function.update_self]
      exact (h.receivers c').append
    · dsimp only
      rw [Function.update_of_ne hc]
      exact h.receivers c'
  · obtain ⟨hnumbered, hle, hwindow, harrived⟩ := h.acknowledgements x hx
    refine ⟨hnumbered.addPacket, hle, ?_, fun hstate => arrived_addPacket (harrived hstate)⟩
    dsimp only
    rwa [numbers_delivered h]
  · obtain ⟨hwindow, harrived⟩ := h.acked c' n hn
    refine ⟨?_, fun hstate => arrived_addPacket (harrived hstate)⟩
    dsimp only
    rwa [numbers_delivered h]

theorem linkInv_datagram (pacing : Pacing) (x y z : Nat) (h : LinkInv f L F A D Q) :
    ∃ F', LinkInv f (L.datagram pacing x y z) F' A D Q := by
  obtain ⟨F', hF, hsender, hcommands⟩ :=
    sound_sendReliableOutgoingCommands (h := pacing) (x := x) (y := y) (z := z) h.sender
  refine ⟨F', hsender, fun x hx => ?_, h.receivers, fun x hx => ?_, h.acked⟩
  · rcases List.mem_append.mp hx with hx | hx
    · exact ⟨(h.wire x hx).1, (h.wire x hx).2.trans (hF _)⟩
    · exact ⟨(hcommands x hx).1, (hcommands x hx).2.2⟩
  · obtain ⟨hnumbered, hle, hrest⟩ := h.acknowledgements x hx
    exact ⟨hnumbered, hle.trans (hF _), hrest⟩

theorem linkInv_checkTimeouts {t : Timing} (h : LinkInv f L F A D Q) :
    LinkInv f (L.checkTimeouts t) F A D Q := by
  unfold Link.checkTimeouts
  split
  · exact ⟨h.sender, h.wire, h.receivers, h.acknowledgements, h.acked⟩
  · rename_i sender hcheck
    exact ⟨sound_checkTimeouts h.sender hcheck, h.wire, h.receivers, h.acknowledgements, h.acked⟩

theorem linkInv_acknowledge {i : Nat} (h : LinkInv f L F A D Q)
    (htimely : Timely f L (.acknowledge i)) : ∃ A', LinkInv f (L.acknowledge i) F A' D Q := by
  unfold Link.acknowledge
  split
  · exact ⟨A, h⟩
  rename_i x hx
  obtain ⟨hnumbered, hle, hwindow, harrived⟩ := h.acknowledgements x (List.mem_of_getElem? hx)
  obtain ⟨A', hA', hsender⟩ :=
    sound_removeSentReliableCommand h.sender hle (htimely x hx)
  rw [hnumbered.number]
  refine ⟨A', hsender, h.wire, h.receivers, h.acknowledgements, fun c n hn => ?_⟩
  rcases hA' c n hn with ⟨rfl, rfl⟩ | hn
  · exact ⟨hwindow, harrived⟩
  · exact h.acked c n hn

/-! ## Steps of the receiving end -/

theorem linkInv_disconnectLater (h : LinkInv f L F A D Q) :
    LinkInv f L.disconnectLater F A D Q where
  sender := h.sender
  wire := h.wire
  receivers c := ⟨⟨(h.receivers c).le, (h.receivers c).current, (h.receivers c).queue,
    (h.receivers c).items, (h.receivers c).dispatched⟩, (h.receivers c).waiting⟩
  acknowledgements x hx :=
    ⟨(h.acknowledgements x hx).1, (h.acknowledgements x hx).2.1, (h.acknowledgements x hx).2.2.1,
      fun hstate => by cases hstate⟩
  acked c n hn := ⟨(h.acked c n hn).1, fun hstate => by cases hstate⟩

/-- The number the packet of a command begins with. -/
theorem first_eq {packets : Nat → List Packet} {x : Numbered} {j k : Nat}
    (hplace : Place f (packets x.channelID) x.serial j k p)
    (hcommand : x.command = commandOf f (start f (packets x.channelID) j) p k) :
    x.first = start f (packets x.channelID) j := by
  have hnumber := hplace.number
  have hk := hplace.lt
  unfold Numbered.first
  rw [hcommand, commandOf]
  rcases Nat.lt_or_ge f p.length with hlt | hle
  · simp only [if_neg (Nat.not_le.mpr hlt)]
    omega
  · rw [commandCount_of_le hle] at hk
    simp only [if_pos hle]
    omega

theorem linkInv_deliver {i : Nat} {full : Bool} (hf : 0 < g.f) (h : LinkInv g.f L F A D Q)
    (htimely : Timely g.f L (.deliver i full)) :
    ∃ D' Q', LinkInv g.f (L.deliver g i full) F A D' Q' := by
  unfold Link.deliver
  split
  · exact ⟨D, Q, h⟩
  rename_i x hx
  obtain ⟨⟨j, k, p, hplace, hcommand⟩, hle⟩ := h.wire x (List.mem_of_getElem? hx)
  have hlow := htimely x hx
  rw [h.length_delivered, first_eq hplace hcommand] at hlow
  have hhigh := (Nat.div_le_div_right (c := 4096) hle).trans (h.ahead x.channelID)
  have hreceive : receive g.host full (L.receivers x.channelID) x.command =
      ((receive g.host full (L.receivers x.channelID) x.command).1,
        (receive g.host full (L.receivers x.channelID) x.command).2) := rfl
  obtain ⟨hstate, d, q, hdelivered, hgrows, hacknowledged⟩ :=
    receive_spec hf (h.receivers x.channelID) hplace hcommand hlow hhigh hreceive
  -- what has arrived on any channel still has, and the receiver has not gone back
  let D' := Function.update D x.channelID d
  let Q' := Function.update Q x.channelID q
  have hgrows' : ∀ c, Grows (D c) (Q c) (D' c) (Q' c) := by
    intro c
    by_cases hc : c = x.channelID
    · subst hc
      simp only [D', Q', Function.update_self]
      exact hgrows
    · simp only [D', Q', Function.update_of_ne hc]
      exact Grows.refl
  have hstate' : ∀ c, (Function.update L.receivers x.channelID
      (receive g.host full (L.receivers x.channelID) x.command).1 c).state =
        (L.receivers c).state := by
    intro c
    by_cases hc : c = x.channelID
    · subst hc
      rw [Function.update_self, hstate]
    · rw [Function.update_of_ne hc]
  have hmono : ∀ c n, n / 4096 < numbers g.f (L.packets c) (D c) / 4096 + 7 →
      n / 4096 < numbers g.f (L.packets c) (D' c) / 4096 + 7 := fun c n hn =>
    lt_of_lt_of_le hn (Nat.add_le_add_right
      (Nat.div_le_div_right (numbers_mono _ _ (hgrows' c).le)) 7)
  refine ⟨D', Q', h.sender, h.wire, fun c => ?_, fun y hy => ?_, fun c n hn => ?_⟩
  · by_cases hc : c = x.channelID
    · subst hc
      simp only [D', Q', Function.update_self]
      exact hdelivered
    · simp only [D', Q', Function.update_of_ne hc]
      exact h.receivers c
  · have hold : y ∈ L.acknowledgements ∨ y = x ∧
        (receive g.host full (L.receivers x.channelID) x.command).2 = true := by
      dsimp only at hy
      split at hy
      · rename_i hack
        rcases List.mem_append.mp hy with hy | hy
        · exact Or.inl hy
        · exact Or.inr ⟨List.mem_singleton.mp hy, hack⟩
      · exact Or.inl hy
    dsimp only
    rw [hstate']
    rcases hold with hy | ⟨rfl, hack⟩
    · obtain ⟨hnumbered, hley, hwindow, harrived⟩ := h.acknowledgements y hy
      exact ⟨hnumbered, hley, hmono _ _ hwindow,
        fun hconnected => (harrived hconnected).mono (hgrows' _)⟩
    · obtain ⟨hwindow, harrived⟩ := hacknowledged hack
      refine ⟨⟨j, k, p, hplace, hcommand⟩, hle, ?_, fun hconnected => ?_⟩
      · simp only [D', Function.update_self]
        exact hwindow
      · simp only [D', Q', Function.update_self]
        exact harrived hconnected
  · dsimp only
    rw [hstate']
    obtain ⟨hwindow, harrived⟩ := h.acked c n hn
    exact ⟨hmono _ _ hwindow, fun hconnected => (harrived hconnected).mono (hgrows' _)⟩

/-! ## Runs -/

/-- A packet in two fragments, the second of which arrives first and again later. -/
def shuffled : List Action :=
  [.send 0 [1, 2, 3], .datagram ⟨0, 1000, 1000, 1, 32, 32, 65⟩ 0 1 4, .deliver 1 false,
    .deliver 0 false, .deliver 1 false, .acknowledge 1, .acknowledge 0]

theorem timely_shuffled :
    Machine.Along (Timely 2) (Link.step ⟨2, 100, ⟨100, 0⟩⟩) Link.init shuffled :=
  ⟨trivial, trivial, by decide, by decide, by decide, by decide, by decide, trivial⟩

/-- The invariant, whatever its numbers are. -/
def LinkOk (f : Nat) (L : Link) : Prop := ∃ F A D Q, LinkInv f L F A D Q

theorem linkOk_step (hf : 0 < g.f) (h : LinkOk g.f L) {a : Action} (htimely : Timely g.f L a) :
    LinkOk g.f (L.step g a) := by
  unfold Link.step
  split
  · obtain ⟨F, A, D, Q, h⟩ := h
    cases a with
    | send c p => exact ⟨F, A, D, Q, linkInv_send hf h⟩
    | datagram pacing x y z =>
      obtain ⟨F', h⟩ := linkInv_datagram pacing x y z h
      exact ⟨F', A, D, Q, h⟩
    | checkTimeouts t => exact ⟨F, A, D, Q, linkInv_checkTimeouts h⟩
    | deliver i full =>
      obtain ⟨D', Q', h⟩ := linkInv_deliver hf h htimely
      exact ⟨F, A, D', Q', h⟩
    | acknowledge i =>
      obtain ⟨A', h⟩ := linkInv_acknowledge h htimely
      exact ⟨F, A', D, Q, h⟩
    | disconnectLater => exact ⟨F, A, D, Q, linkInv_disconnectLater h⟩
  · exact h

theorem linkOk_run (hf : 0 < g.f) {as : List Action}
    (hrun : Machine.Along (Timely g.f) (Link.step g) Link.init as) :
    LinkOk g.f (Machine.run (Link.step g) Link.init as) :=
  hrun.inv (P := LinkOk g.f) (fun _ _ ha hs => linkOk_step hf hs ha)
    ⟨_, _, _, _, linkInv_init⟩

/-- **In order.** Whatever the network loses, repeats or reorders: on every channel the packets
delivered are a beginning of the packets sent, byte for byte. -/
theorem link_inOrder (hf : 0 < g.f) {as : List Action}
    (hrun : Machine.Along (Timely g.f) (Link.step g) Link.init as) (c : Nat) :
    (Machine.run (Link.step g) Link.init as).delivered c <+:
      (Machine.run (Link.step g) Link.init as).packets c := by
  obtain ⟨F, A, D, Q, h⟩ := linkOk_run hf hrun
  rw [Link.delivered, (h.receivers c).dispatched]
  exact List.take_prefix _ _

theorem link_inOrder_shuffled :
    (Machine.run (Link.step ⟨2, 100, ⟨100, 0⟩⟩) Link.init shuffled).delivered 0 <+:
      (Machine.run (Link.step ⟨2, 100, ⟨100, 0⟩⟩) Link.init shuffled).packets 0 :=
  link_inOrder (g := ⟨2, 100, ⟨100, 0⟩⟩) (by decide) timely_shuffled 0

/-- A packet of which every command has arrived does not wait. -/
theorem Delivered.lt_of_arrived {packets : List Packet} {r : Receiver} {d j : Nat}
    {q : List (Nat × Incoming)} (hf : 0 < f) (h : Delivered f packets r d q)
    (hp : packets[j]? = some p) (hjd : j = d)
    (harrived : ∀ k < commandCount f p, Arrived f packets d q (start f packets j + k)) : False := by
  -- the packet is in the queue, as its first command has arrived
  have hqueue : ∀ k < commandCount f p, ∃ x ∈ q, x.1 = j ∧
      (p.length ≤ f ∨ x.2.fragments[k]? = some true) := by
    intro k hk
    obtain ⟨j', k', p', hplace, hin⟩ := harrived k hk
    obtain ⟨rfl, rfl, rfl⟩ := hplace.unique ⟨hp, hk, rfl⟩
    exact hin.resolve_left (by omega)
  obtain ⟨x, hx, hxj, -⟩ := hqueue 0 (commandCount_pos hf)
  -- it is the first one there
  obtain ⟨y, q', rfl⟩ := List.exists_cons_of_ne_nil (List.ne_nil_of_mem hx)
  have hsorted := List.pairwise_cons.mp (List.map_cons ▸ h.items.sorted)
  obtain ⟨py, hpy, hdy, -, hheld⟩ := h.items.held y List.mem_cons_self
  have hmem : ∀ z ∈ y :: q', z.1 = j → z = y := by
    intro z hz hzj
    rcases List.mem_cons.mp hz with rfl | hz
    · rfl
    · have := hsorted.1 z.1 (List.mem_map_of_mem hz)
      omega
  obtain rfl := hmem x hx hxj
  rw [hxj] at hpy hheld
  obtain rfl : p = py := Option.some.inj (hp.symm.trans hpy)
  refine h.waiting x rfl (hxj.trans hjd) ?_
  rcases Nat.lt_or_ge f p.length with hlt | hle
  · obtain ⟨hlength, hremaining⟩ := hheld.bits hlt
    rw [hremaining, List.count_eq_zero]
    intro hfalse
    obtain ⟨k, hk, hget⟩ := List.getElem_of_mem hfalse
    obtain ⟨z, hz, hzj, hbit⟩ := hqueue k (hlength ▸ hk)
    obtain rfl := hmem z hz hzj
    have hbit := hbit.resolve_left (Nat.not_le.mpr hlt)
    rw [List.getElem?_eq_getElem hk, hget] at hbit
    cases hbit
  · exact (hheld.whole hle).2.2.1

/-- **Nothing is lost.** When the sender holds no command of a channel any more, and the receiver
has not begun to disconnect, all packets of the channel have been delivered. -/
theorem link_complete (hf : 0 < g.f) {as : List Action}
    (hrun : Machine.Along (Timely g.f) (Link.step g) Link.init as) {c : Nat} {L : Link}
    (hL : L = Machine.run (Link.step g) Link.init as)
    (hempty : ∀ o ∈ L.sender.sentReliableCommands ++ L.sender.outgoingReliableCommands,
      o.channelID ≠ c)
    (hstate : (L.receivers c).state = .connected) : L.delivered c = L.packets c := by
  subst hL
  obtain ⟨F, A, D, Q, h⟩ := linkOk_run hf hrun
  generalize Machine.run (Link.step g) Link.init as = L at *
  have hw := h.sender.windows c
  have hnone : ∀ b, serials c b L.sender.sentReliableCommands = [] ∧
      serials c b L.sender.outgoingReliableCommands = [] := by
    intro b
    constructor <;>
    · unfold serials
      rw [List.filter_eq_nil_iff.mpr, List.map_nil]
      intro o ho hmem
      exact hempty o (by simp [ho]) (of_decide_eq_true hmem).1
  -- every number has been sent and acknowledged
  have hall : F c = numbers g.f (L.packets c) (L.packets c).length := by
    have hfresh := hw.fresh
    rw [waiting, (hnone false).2, eq_comm, List.range'_eq_nil_iff] at hfresh
    have := hw.le
    omega
  have harrived : ∀ n, 0 < n → n ≤ F c → Arrived g.f (L.packets c) (D c) (Q c) n := by
    intro n h0 hn
    rcases hw.acked n h0 hn with hin | hacked
    · rw [flight, (hnone true).1, (hnone true).2] at hin
      cases hin
    · exact (h.acked c n hacked).2 hstate
  have hle := (h.receivers c).le
  have hD : D c = (L.packets c).length := by
    by_contra hne
    have hlt : D c < (L.packets c).length := by omega
    have hp : (L.packets c)[D c]? = some (L.packets c)[D c] := List.getElem?_eq_getElem hlt
    refine (h.receivers c).lt_of_arrived hf hp rfl fun k hk => harrived _ ?_ ?_
    · rw [start_eq]
      omega
    · have := numbers_lt (f := g.f) hp hlt
      rw [hall, start_eq]
      omega
  rw [Link.delivered, (h.receivers c).dispatched, hD, List.take_length]

theorem link_complete_shuffled :
    (Machine.run (Link.step ⟨2, 100, ⟨100, 0⟩⟩) Link.init shuffled).delivered 0 =
      (Machine.run (Link.step ⟨2, 100, ⟨100, 0⟩⟩) Link.init shuffled).packets 0 :=
  link_complete (g := ⟨2, 100, ⟨100, 0⟩⟩) (by decide) timely_shuffled rfl (by decide)
    rfl

/-- The commands of a channel that have been sent and are not acknowledged. -/
def Link.inFlight (L : Link) (c : Nat) : List Outgoing :=
  (L.sender.sentReliableCommands ++ L.sender.outgoingReliableCommands).filter
    fun o => o.channelID = c ∧ 0 < o.sendAttempts

/-- **The windows.** The counts of the windows are exact and the bits tell which are used; the
commands in flight have different numbers, lie within nine windows, and are less than eight
windows ahead of what has been delivered. -/
theorem link_windows (hf : 0 < g.f) {as : List Action}
    (hrun : Machine.Along (Timely g.f) (Link.step g) Link.init as) {c : Nat} {L : Link}
    (hL : L = Machine.run (Link.step g) Link.init as) :
    (∀ w < 16, (L.sender.channels c).reliableWindows w =
        (L.inFlight c).countP fun o => o.reliableSequenceNumber / 4096 = w) ∧
      (∀ w < 16, (L.sender.channels c).usedReliableWindows.testBit w =
        decide (∃ o ∈ L.inFlight c, o.reliableSequenceNumber / 4096 = w)) ∧
      ((L.inFlight c).map (·.reliableSequenceNumber)).Nodup ∧
      (∀ o ∈ L.inFlight c, ∀ o' ∈ L.inFlight c,
        o.command.serial / 4096 ≤ o'.command.serial / 4096 + 8) ∧
      ∀ o ∈ L.inFlight c, o.command.serial / 4096 ≤
        numbers g.f (L.packets c) (L.delivered c).length / 4096 + 7 := by
  subst hL
  obtain ⟨F, A, D, Q, h⟩ := linkOk_run hf hrun
  generalize Machine.run (Link.step g) Link.init as = L at *
  have hw := h.sender.windows c
  have hflight : flight c L.sender.sentReliableCommands L.sender.outgoingReliableCommands =
      (L.inFlight c).map (·.command.serial) := by
    rw [flight, ← serials_append]
    simp [serials, Link.inFlight]
  have hnumber : ∀ o ∈ L.inFlight c, o.reliableSequenceNumber = o.command.serial % 65536 :=
    fun o ho => (h.sender.proper o (List.mem_filter.mp ho).1).number
  have hbounds : ∀ o ∈ L.inFlight c, o.command.serial ≤ F c ∧
      F c / 4096 ≤ o.command.serial / 4096 + 8 := fun o ho =>
    (hw.bounds _ (hflight ▸ List.mem_map_of_mem ho)).2
  have hcounts : ∀ w < 16, (L.sender.channels c).reliableWindows w =
      (L.inFlight c).countP fun o => o.reliableSequenceNumber / 4096 = w := by
    intro w hlt
    rw [hw.counts w hlt, hflight, List.countP_map]
    refine List.countP_congr fun o ho => ?_
    simp [hnumber o ho]
  refine ⟨hcounts, fun w hlt => ?_, ?_, fun o ho o' ho' => ?_, fun o ho => ?_⟩
  · rw [hw.used w hlt, hcounts w hlt, decide_eq_decide, List.countP_pos_iff]
    simp
  · have hserials := hflight ▸ hw.nodup
    refine List.Nodup.map_on ?_ hserials.of_map
    intro o ho o' ho' heq
    rw [hnumber o ho, hnumber o' ho'] at heq
    have hb := hbounds o ho
    have hb' := hbounds o' ho'
    exact List.inj_on_of_nodup_map hserials ho ho' (by omega)
  · have hb := hbounds o ho
    have hb' := hbounds o' ho'
    omega
  · have hb := hbounds o ho
    have := h.ahead c
    rw [h.length_delivered]
    omega

theorem link_windows_shuffled :
    let L := Machine.run (Link.step ⟨2, 100, ⟨100, 0⟩⟩) Link.init (shuffled.take 5)
    (∀ w < 16, (L.sender.channels 0).reliableWindows w =
        (L.inFlight 0).countP fun o => o.reliableSequenceNumber / 4096 = w) ∧
      (∀ w < 16, (L.sender.channels 0).usedReliableWindows.testBit w =
        decide (∃ o ∈ L.inFlight 0, o.reliableSequenceNumber / 4096 = w)) ∧
      ((L.inFlight 0).map (·.reliableSequenceNumber)).Nodup ∧
      (∀ o ∈ L.inFlight 0, ∀ o' ∈ L.inFlight 0,
        o.command.serial / 4096 ≤ o'.command.serial / 4096 + 8) ∧
      ∀ o ∈ L.inFlight 0, o.command.serial / 4096 ≤
        numbers 2 (L.packets 0) (L.delivered 0).length / 4096 + 7 :=
  link_windows (g := ⟨2, 100, ⟨100, 0⟩⟩) (by decide)
    (Machine.along_append.mp (timely_shuffled : Machine.Along (Timely 2)
      (Link.step ⟨2, 100, ⟨100, 0⟩⟩) Link.init (shuffled.take 5 ++ shuffled.drop 5))).1 rfl

end Enet

end Zuckerserv

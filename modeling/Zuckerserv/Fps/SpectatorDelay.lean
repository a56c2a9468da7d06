import Zuckerserv.Fps.WorldDelivery
import Zuckerserv.Lib.Machine

/-!
# The delay for spectators

Spectators are to see the game `spectator_delay` milliseconds late, so that they cannot help those
who play. Broadcasts leave them out; what is broadcast is kept and sent to them when its time has
come. The world state is kept in the same way, but it is also sent to every client at once.

* `Server`, `Action`, `step` — the code.
* `Alike` — runs that differ in what the players send.
* `Quiet` — nothing of others is sent, in a world state or alone, to a spectator who looks on.
* `Same`, `Extends`, `Sim` — what stays unseen, and what two such runs have in common.
* `barrier` — in quiet runs a delayed spectator is sent the same packets.
* `windows_pass_barrier` — in others it is not.
-/

namespace Zuckerserv

namespace WorldState

/-! ## The world state and the clients -/

/-- Bots are hosted, and numbers lead back, as before when nothing but the queues changes. -/
theorem Hosting.congr {w : World} {info : Handle → ClientInfo} (h : Hosting w)
    (hinfo : ∀ i, (info i).clientnum = (w.info i).clientnum ∧ (info i).n = (w.info i).n ∧
      (info i).isBot = (w.info i).isBot ∧ (info i).bots = (w.info i).bots) :
    Hosting { w with info } := by
  have hnum (i : Handle) : (info i).clientnum = (w.info i).clientnum := (hinfo i).1
  have hbot (i : Handle) : (info i).isBot = (w.info i).isBot := (hinfo i).2.2.1
  have hbots (i : Handle) : (info i).bots = (w.info i).bots := (hinfo i).2.2.2
  have hsend : World.sendpacket { w with info } = w.sendpacket := by
    funext n
    simp only [World.sendpacket, World.realCn, (hinfo _).2.1]
  obtain ⟨hnodup, hbots_nodup, hbots_mem, howned, hunique, hrouted⟩ := h
  refine ⟨hnodup, ?_, ?_, ?_, ?_, ?_⟩
  · simpa only [hbot, hbots] using hbots_nodup
  · simpa only [hbot, hbots] using hbots_mem
  · simpa only [hbot, hbots] using howned
  · simpa only [hbot, hbots] using hunique
  · simpa only [hbot, hnum, hsend] using hrouted

/-- What building the world state leaves alone, field by field. -/
theorem buildworldstate_frame {α : Type} {F : ClientInfo → α}
    (hbegin : ∀ (x : ClientInfo), F { x with overflow := 0, wsdata := none } = F x)
    (hpositions : ∀ x, F (positions.clear x) = F x) (hmessages : ∀ x, F (messages.clear x) = F x)
    (hws : ∀ (x : ClientInfo) (p : Option Nat) (n : Nat), F { x with wsdata := p, wslen := n } = F x)
    (servermtu : Int) (w : World) (i : Handle) :
    F ((buildworldstate servermtu w).info i) = F (w.info i) := by
  obtain ⟨mtu, hbuild⟩ := buildworldstate_eq servermtu w
  have hstart : F ((start w).info i) = F (w.info i) := begun_frame hbegin w i
  rw [hbuild]
  split
  · exact hstart
  · rw [phase, sendpending_info, phase_frame hmessages hws, phase, sendpending_info,
      phase_frame hpositions hws, hstart]

theorem buildworldstate_clientnum (servermtu : Int) (w : World) (i : Handle) :
    ((buildworldstate servermtu w).info i).clientnum = (w.info i).clientnum :=
  buildworldstate_frame (F := ClientInfo.clientnum) (fun _ => rfl) (fun _ => rfl) (fun _ => rfl)
    (fun _ _ _ => rfl) servermtu w i

theorem Hosting.buildworldstate {w : World} (h : Hosting w) (servermtu : Int) :
    Hosting { w with info := (buildworldstate servermtu w).info } :=
  h.congr fun i =>
    ⟨buildworldstate_clientnum servermtu w i,
    buildworldstate_frame (F := ClientInfo.n) (fun _ => rfl) (fun _ => rfl) (fun _ => rfl)
      (fun _ _ _ => rfl) servermtu w i,
    buildworldstate_frame (F := ClientInfo.isBot) (fun _ => rfl) (fun _ => rfl) (fun _ => rfl)
      (fun _ _ _ => rfl) servermtu w i,
    buildworldstate_frame (F := ClientInfo.bots) (fun _ => rfl) (fun _ => rfl) (fun _ => rfl)
      (fun _ _ _ => rfl) servermtu w i⟩

/-- All packets so far get to human clients of the world, on one of the two channels. -/
structure Addressed (w : World) (s : State) : Prop where
  clientnum : ∀ i, (s.info i).clientnum = (w.info i).clientnum
  isBot : ∀ i, (s.info i).isBot = (w.info i).isBot
  sent : ∀ p ∈ s.sent, w.sendpacket p.dest ∈ w.clients ∧
    (w.info (w.sendpacket p.dest)).isBot = false ∧
    (p.chan = positions.chan ∨ p.chan = messages.chan)

namespace Addressed

variable {w : World} {s : State} {ch : Channel}

theorem sendpending (h : Addressed w s) (hw : Hosting w)
    (hch : ch = positions ∨ ch = messages) : Addressed w (sendpending ch w.clients s) := by
  refine ⟨fun i => by rw [sendpending_info, h.clientnum],
    fun i => by rw [sendpending_info, h.isBot], ?_⟩
  unfold WorldState.sendpending
  split
  · exact h.sent
  · intro p hp
    rcases List.mem_append.mp hp with hp | hp
    · exact h.sent p hp
    · obtain ⟨i, hi, hwindow⟩ := List.mem_filterMap.mp hp
      obtain ⟨hhuman, hdest, hchan⟩ := window_dest hwindow
      have hhuman' : (w.info i).isBot = false := h.isBot i ▸ hhuman
      rw [hdest, hchan, h.clientnum, hw.routed i hi hhuman']
      refine ⟨hi, hhuman', ?_⟩
      rcases hch with rfl | rfl
      · exact .inl rfl
      · exact .inr rfl

theorem addpending (h : Addressed w s) (hw : Hosting w) (hch : ch = positions ∨ ch = messages)
    (mtu : Int) (bi ci : Handle) : Addressed w (addpending ch w.clients mtu bi ci s) := by
  have hclear : ∀ x, (ch.clear x).isBot = x.isBot ∧ (ch.clear x).clientnum = x.clientnum := by
    rcases hch with rfl | rfl
    · exact fun _ => ⟨rfl, rfl⟩
    · exact fun _ => ⟨rfl, rfl⟩
  refine ⟨fun i => ?_, fun i => ?_, ?_⟩
  · rw [addpending_frame (F := ClientInfo.clientnum) (fun x => (hclear x).2) (fun _ _ _ => rfl),
      h.clientnum]
  · rw [addpending_frame (F := ClientInfo.isBot) (fun x => (hclear x).1) (fun _ _ _ => rfl),
      h.isBot]
  · unfold WorldState.addpending
    split
    · exact h.sent
    · dsimp only
      split
      · exact (h.sendpending hw hch).sent
      · exact h.sent

theorem addclient (h : Addressed w s) (hw : Hosting w) (hch : ch = positions ∨ ch = messages)
    (mtu : Int) (i : Handle) :
    Addressed w (addclient (WorldState.addpending ch w.clients mtu) s i) := by
  have hbots (bs : List Handle) {t : State} (ht : Addressed w t) :
      Addressed w (bs.foldl (fun s j => WorldState.addpending ch w.clients mtu j i s) t) := by
    induction bs generalizing t with
    | nil => exact ht
    | cons b bs ih => exact ih (ht.addpending hw hch mtu b i)
  unfold WorldState.addclient
  split
  · exact h
  · exact hbots _ (h.addpending hw hch mtu i i)

theorem phase (h : Addressed w s) (hw : Hosting w) (hch : ch = positions ∨ ch = messages)
    (mtu : Int) : Addressed w (phase ch w.clients mtu s) := by
  have hclients (cs : List Handle) {t : State} (ht : Addressed w t) : Addressed w
      (cs.foldl (WorldState.addclient (WorldState.addpending ch w.clients mtu)) t) := by
    induction cs generalizing t with
    | nil => exact ht
    | cons c cs ih => exact ih (ht.addclient hw hch mtu c)
  exact (hclients w.clients h).sendpending hw hch

end Addressed

theorem addressed {w : World} (hw : Hosting w) (servermtu : Int) :
    Addressed w (buildworldstate servermtu w) := by
  obtain ⟨mtu, hbuild⟩ := buildworldstate_eq servermtu w
  have hstart : Addressed w (start w) :=
    ⟨begun_frame (F := ClientInfo.clientnum) (fun _ => rfl) w,
      begun_frame (F := ClientInfo.isBot) (fun _ => rfl) w, fun _ h => by cases h⟩
  rw [hbuild]
  split
  · exact hstart
  · exact (hstart.phase hw (.inl rfl) mtu).phase hw (.inr rfl) mtu

/-- Nobody but the client and its bots has anything queued. -/
def NothingFor (w : World) (c : Handle) : Prop :=
  ∀ i ∈ w.clients, i ∉ hosted w.info c → (w.info i).position = [] ∧ (w.info i).messages = []

instance (w : World) (c : Handle) : Decidable (NothingFor w c) :=
  inferInstanceAs (Decidable (∀ i ∈ w.clients, _ → _))

/-- Then the client is sent nothing. -/
theorem NothingFor.dest_ne {w : World} {c : Handle} (h : NothingFor w c) (hw : Hosting w)
    (servermtu : Int) {p : Packet} (hp : p ∈ (buildworldstate servermtu w).sent) :
    w.sendpacket p.dest ≠ c := by
  rintro rfl
  obtain ⟨hmem, hhuman, hchan⟩ := (addressed hw servermtu).sent p hp
  have hnone {ch : Channel} (hch : ch = positions ∨ ch = messages) :
      delivered w.sendpacket (buildworldstate servermtu w) ch.chan (w.sendpacket p.dest) = [] := by
    obtain ⟨groups, hgroups⟩ := exists_delivers hw servermtu hch
    rw [hgroups.delivered_eq _ hmem hhuman, packetsOf, List.filter_eq_nil_iff]
    intro bytes hbytes
    obtain ⟨g, hg, rfl⟩ := List.mem_map.mp hbytes
    have hempty : others (w.sendpacket p.dest) g = [] := by
      refine List.eq_nil_iff_forall_not_mem.mpr fun b hb => ?_
      have hb := (hgroups.rotated _ hmem g hg).mem_iff.mp hb
      obtain ⟨hbg, hsender⟩ := List.mem_filter.mp hb
      have hlaid : b ∈ laidBlocks ch w.info w.clients :=
        hgroups.flatten ▸ List.mem_flatten_of_mem hg hbg
      have hqueue : b.sender ∈ (w.clients.flatMap (hosted w.info)).filter
          fun i => ch.get (w.info i) ≠ [] := by
        rw [← map_sender_laidBlocks]
        exact List.mem_map_of_mem hlaid
      obtain ⟨hfrom, hget⟩ := List.mem_filter.mp hqueue
      obtain ⟨hpos, hmsg⟩ := h b.sender (hw.senders_perm.mem_iff.mp hfrom) (of_decide_eq_true hsender)
      rcases hch with rfl | rfl
      · exact of_decide_eq_true hget hpos
      · exact of_decide_eq_true hget hmsg
    rw [hempty]
    simp [flat]
  have hbytes {k : Nat} (hk : p.chan = k)
      (hno : delivered w.sendpacket (buildworldstate servermtu w) k (w.sendpacket p.dest) = []) :
      False := by
    rw [delivered, List.map_eq_nil_iff, List.filter_eq_nil_iff] at hno
    exact hno p hp (decide_eq_true ⟨rfl, hk⟩)
  rcases hchan with hchan | hchan
  · exact hbytes hchan (hnone (.inl rfl))
  · exact hbytes hchan (hnone (.inr rfl))

end WorldState

namespace Delay

open WorldState

/-! ## The code -/

/-- The fields of `clientinfo` that say what a client may see. -/
structure Viewer where
  /-- `state.state == CS_SPECTATOR`. -/
  spectator : Bool
  /-- `privilege == PRIV_ADMIN`. -/
  admin : Bool
  /-- When it became a spectator. -/
  specmillis : Int

/-- `delayed_sendpacket`. -/
structure DelayedSendpacket where
  time : Int
  channel : Nat
  data : List UInt8
  deriving DecidableEq

/-- A packet that has been sent to a client. -/
structure Sent where
  dest : Handle
  chan : Nat
  data : List UInt8
  /-- `is_delayed_spectator()` of the client at that time. -/
  delayed : Bool
  deriving DecidableEq

/-- What takes part in sending. -/
structure Server (γ : Type) where
  world : World
  hosting : Hosting world
  viewer : Handle → Viewer
  totalmillis : Int
  gamemillis : Int
  gamelimit : Int
  spectatorDelay : Int
  interm : Bool
  nonlocalclients : Nat
  demorecord : Bool
  delayedSendpackets : List DelayedSendpacket
  sent : List Sent
  /-- What packets for one client are made of besides: the states of those who play, the items. -/
  game : γ

/-- Which clients there are, which bots they host, and where packets for them go. -/
structure Roster where
  clients : List Handle
  clientnum : Handle → Int32
  n : Handle → Int32
  isBot : Handle → Bool
  bots : Handle → List Handle
  spycn : Int32
  spies : List Handle
  peer : Int32 → Handle
  hosting (info : Handle → ClientInfo) : Hosting ⟨fun i =>
    { info i with clientnum := clientnum i, n := n i, isBot := isBot i, bots := bots i },
    clients, spycn, spies, peer⟩

/-- What happens. -/
inductive Action (γ : Type)
  /-- Time goes by. -/
  | tick (millis : Nat)
  /-- The clock of the game. -/
  | clock (gamemillis gamelimit : Int)
  /-- `N_POS` of a client or one of its bots. -/
  | position (i : Handle) (data : List UInt8)
  /-- A message that is queued for the others. -/
  | message (i : Handle) (data : List UInt8)
  /-- What a message does with the game. -/
  | play (f : γ → γ)
  /-- `sendpacket(-1, chan, packet, exclude)`. -/
  | broadcast (chan : Nat) (data : List UInt8) (exclude : Option Handle)
  /-- `flushclientposition`. -/
  | flushclientposition (i : Handle) (ownernum : Option Handle)
  /-- `recordpacket`, when nothing is sent. -/
  | recordpacket (chan : Nat) (data : List UInt8)
  /-- `sendf(cn, chan, …)` for the clients that a message of a player is for. -/
  | sendf (ns : List Handle) (chan : Nat) (data : List UInt8)
  /-- `sendclipboard`, when a player pastes and the clients `needs` do not have the clipboard. -/
  | sendclipboard (servermtu : Int) (needs : List Handle) (data : List UInt8)
  /-- What else changes the game. -/
  | game (f : γ → γ)
  /-- `sendpackets`; `due` is `curtime >= packetdelay || force`. -/
  | sendpackets (due : Bool) (servermtu : Int)
  /-- Clients and bots come and go. -/
  | roster (r : Roster)
  /-- `connected(ci)`: with `locked` for `mastermode >= MM_LOCKED`, what `specmillis` is in the
  memory of the client, and what `welcomepacket` tells of the game. -/
  | connected (i : Handle) (locked : Bool) (specmillis : Int) (welcomepacket : γ → List UInt8)
  /-- A packet for single clients that no player has caused. -/
  | unicast (ns : List Handle) (chan : Nat) (packet : γ → List UInt8)
  | setspectator (i : Handle) (val broadcast : Bool)
  | setprivilege (i : Handle) (admin : Bool)
  /-- The game ends, or another one begins. -/
  | intermission (val : Bool)
  /-- Connections and the recording of a demo begin and end. -/
  | connections (nonlocalclients : Nat) (demorecord : Bool)

variable {γ : Type}

namespace Server

/-- `is_delayed_spectator()`. -/
def isDelayedSpectator (s : Server γ) (i : Handle) : Bool :=
  s.spectatorDelay ≠ 0 ∧ (s.viewer i).spectator ∧ ¬ (s.viewer i).admin

/-- `void recordpacket(int chan, void *data, int len)`, as far as spectators are concerned. -/
def recordpacket (s : Server γ) (chan : Nat) (data : List UInt8) : Server γ :=
  if s.spectatorDelay = 0 ∨ s.interm then s
  else { s with delayedSendpackets :=
    s.delayedSendpackets ++ [⟨s.totalmillis + s.spectatorDelay, chan, data⟩] }

/-- `sendpacket(n, chan, packet)` for the clients `ns`. -/
def sendpacket (s : Server γ) (ns : List Handle) (chan : Nat) (data : List UInt8) : Server γ :=
  { s with sent := s.sent ++ ns.map fun n => ⟨n, chan, data, s.isDelayedSpectator n⟩ }

/-- `sendpacket(-1, chan, packet, exclude)`; `allowbroadcast` is false for delayed spectators. -/
def broadcast (s : Server γ) (chan : Nat) (data : List UInt8) (exclude : Option Handle) : Server γ :=
  (s.recordpacket chan data).sendpacket (s.world.clients.filter fun i =>
    ¬ (s.world.info i).isBot ∧ some i ≠ exclude ∧ ¬ s.isDelayedSpectator i) chan data

/-- Another queue of a client. -/
def modify (s : Server γ) (i : Handle) (position messages : List UInt8) : Server γ :=
  { s with
    world := { s.world with
      info := Function.update s.world.info i { s.world.info i with position, messages } }
    hosting := s.hosting.congr fun j => by
      by_cases hj : j = i
      · subst hj
        simp
      · simp [Function.update_of_ne hj] }

/-- `void flushclientposition(clientinfo &ci)`. -/
def flushclientposition (s : Server γ) (i : Handle) (ownernum : Option Handle) : Server γ :=
  if (s.world.info i).position = [] ∨ (s.nonlocalclients = 0 ∧ ¬ s.demorecord) then s
  else (s.modify i [] (s.world.info i).messages).broadcast 0 (s.world.info i).position ownernum

/-- What `sendpackets` does with the first packet that is kept. -/
def replay (s : Server γ) : Server γ :=
  match s.delayedSendpackets with
  | [] => s
  | d :: ds =>
    if s.totalmillis ≥ d.time then
      { s.sendpacket (s.world.clients.filter fun i => s.isDelayedSpectator i ∧
          ¬ (s.viewer i).specmillis + s.spectatorDelay > s.totalmillis) d.channel d.data with
        delayedSendpackets := ds }
    else s

/-- `buildworldstate`: what it records and what it sends. -/
def worldstate (s : Server γ) (servermtu : Int) : Server γ :=
  let ws := buildworldstate servermtu s.world
  let s := ws.recorded.foldl (fun s r => s.recordpacket r.1 r.2) s
  { s with
    world := { s.world with info := (buildworldstate servermtu s.world).info }
    hosting := s.hosting.buildworldstate servermtu
    sent := s.sent ++ ws.sent.map fun p =>
      let dest := s.world.sendpacket p.dest
      ⟨dest, p.chan, p.bytes ws.memory, s.isDelayedSpectator dest⟩ }

/-- The condition of the first line of `sendpackets`. -/
def idle (s : Server γ) : Prop :=
  s.world.clients = [] ∨ (s.nonlocalclients = 0 ∧ s.demorecord = false)

instance (s : Server γ) : Decidable s.idle := inferInstanceAs (Decidable (_ ∨ _))

/-- `bool sendpackets(bool force)`. -/
def sendpackets (s : Server γ) (due : Bool) (servermtu : Int) : Server γ :=
  if s.idle then s
  else if due then s.replay.worldstate servermtu
  else s.replay

/-- `void sendclipboard(clientinfo *ci)`: the server is flushed before the first client. -/
def sendclipboard (s : Server γ) (servermtu : Int) (needs : List Handle) (data : List UInt8) :
    Server γ :=
  if needs = [] then s else (s.sendpackets true servermtu).sendpacket needs 1 data

/-- A client comes, at once as a spectator if the server is locked. -/
def join (s : Server γ) (i : Handle) (locked : Bool) (specmillis : Int) : Server γ :=
  { s with viewer := Function.update s.viewer i { s.viewer i with
    spectator := locked
    specmillis } }

/-- `void connected(clientinfo *ci)`, with its `sendwelcome`. -/
def connected (s : Server γ) (i : Handle) (locked : Bool) (specmillis : Int)
    (welcomepacket : γ → List UInt8) : Server γ :=
  (s.join i locked specmillis).sendpacket [i] 1 (welcomepacket s.game)

/-- A client begins or ceases to look on. -/
def look (s : Server γ) (i : Handle) (val : Bool) : Server γ :=
  { s with viewer := Function.update s.viewer i { s.viewer i with
    spectator := val
    specmillis := if val then s.totalmillis else (s.viewer i).specmillis } }

/-- `sendf(broadcast ? -1 : cn, 1, …)`. -/
def tell (s : Server γ) (i : Handle) (broadcast : Bool) (data : List UInt8) : Server γ :=
  if broadcast then s.broadcast 1 data none else s.sendpacket [i] 1 data

/-- What is sent to the client itself for the delay. -/
def tellDelay (s : Server γ) (i : Handle) (data timeup : List UInt8) : Server γ :=
  if s.spectatorDelay = 0 then s else (s.sendpacket [i] 1 data).sendpacket [i] 1 timeup

/-- `void setspectator(clientinfo * spinfo, bool val, bool broadcast)`. -/
def setspectator (s : Server γ) (i : Handle) (val broadcast : Bool) : Server γ :=
  if (s.viewer i).spectator = val then s
  else
    let data := intBytes Msg.N_SPECTATOR.code ++ intBytes (s.world.info i).clientnum ++
      intBytes (if val then 1 else 0)
    let timeup := intBytes Msg.N_TIMEUP.code ++
      intBytes (Int32.ofInt ((s.gamelimit - s.gamemillis + s.spectatorDelay).tdiv 1000))
    ((s.look i val).tell i broadcast data).tellDelay i data timeup

/-- What happens at an action. -/
def step (s : Server γ) : Action γ → Server γ
  | .tick millis => { s with totalmillis := s.totalmillis + millis }
  | .clock gamemillis gamelimit => { s with gamemillis, gamelimit }
  | .position i data => s.modify i data (s.world.info i).messages
  | .message i data => s.modify i (s.world.info i).position ((s.world.info i).messages ++ data)
  | .play f => { s with game := f s.game }
  | .broadcast chan data exclude => s.broadcast chan data exclude
  | .flushclientposition i ownernum => s.flushclientposition i ownernum
  | .recordpacket chan data => s.recordpacket chan data
  | .sendf ns chan data => s.sendpacket ns chan data
  | .sendclipboard servermtu needs data => s.sendclipboard servermtu needs data
  | .game f => { s with game := f s.game }
  | .sendpackets due servermtu => s.sendpackets due servermtu
  | .roster r => { s with
      world := ⟨fun i => { s.world.info i with
        clientnum := r.clientnum i, n := r.n i, isBot := r.isBot i, bots := r.bots i },
        r.clients, r.spycn, r.spies, r.peer⟩
      hosting := r.hosting s.world.info }
  | .connected i locked specmillis welcomepacket => s.connected i locked specmillis welcomepacket
  | .unicast ns chan packet => s.sendpacket ns chan (packet s.game)
  | .setspectator i val broadcast => s.setspectator i val broadcast
  | .setprivilege i admin =>
    { s with viewer := Function.update s.viewer i { s.viewer i with admin } }
  | .intermission val => { s with interm := val }
  | .connections nonlocalclients demorecord => { s with nonlocalclients, demorecord }

/-! ## The barrier -/

/-- What a client has been sent as a delayed spectator. -/
def seen (s : Server γ) (c : Handle) : List Sent := s.sent.filter fun p => p.dest = c ∧ p.delayed

end Server

/-- What comes from those who play: positions, messages and what the server does for them. -/
def Action.live : Action γ → Bool
  | .position .. | .message .. | .play .. | .broadcast .. | .flushclientposition ..
  | .recordpacket .. | .sendf .. | .sendclipboard .. => true
  | _ => false

/-- Two runs that differ only in what comes from those who play. -/
inductive Alike : List (Action γ) → List (Action γ) → Prop
  | nil : Alike [] []
  | left {a : Action γ} {r r' : List (Action γ)} (ha : a.live = true) (h : Alike r r') :
    Alike (a :: r) r'
  | right {a : Action γ} {r r' : List (Action γ)} (ha : a.live = true) (h : Alike r r') :
    Alike r (a :: r')
  | both (a : Action γ) {r r' : List (Action γ)} (h : Alike r r') : Alike (a :: r) (a :: r')

/-- The milliseconds that an action takes. -/
def Action.millis : Action γ → Nat
  | .tick millis => millis
  | _ => 0

/-- The time that goes by in a run. -/
def elapsed (r : List (Action γ)) : Nat := (r.map Action.millis).sum

/-- Nothing of others is in the world state for a client that looks on. -/
def Server.Unseen (s : Server γ) : Prop :=
  ∀ c ∈ s.world.clients, (s.world.info c).isBot = false → s.isDelayedSpectator c = true →
    NothingFor s.world c

instance (s : Server γ) : Decidable s.Unseen := inferInstanceAs (Decidable (∀ c ∈ _, _))

/-- Where the barrier has no hole: the world state holds nothing for those who look on, and what is
sent to one of them alone comes from no player and tells nothing of the game. A clipboard is sent
only while no packet that is kept is due, as the server is flushed for it. -/
def Quiet (s : Server γ) : Action γ → Prop
  | .sendpackets true _ => ¬ s.idle → s.Unseen
  | .sendf ns _ _ => ∀ n ∈ ns, s.isDelayedSpectator n = false
  | .sendclipboard _ needs _ => needs ≠ [] → (∀ n ∈ needs, s.isDelayedSpectator n = false) ∧
      (¬ s.idle → s.Unseen ∧ ∀ d ∈ s.delayedSendpackets, s.totalmillis < d.time)
  | .connected _ locked _ welcomepacket =>
    locked = true → s.spectatorDelay ≠ 0 → ∀ g g', welcomepacket g = welcomepacket g'
  | .unicast ns _ packet => (∃ n ∈ ns, s.isDelayedSpectator n = true) → ∀ g g', packet g = packet g'
  | _ => True

theorem elapsed_cons (a : Action γ) (r : List (Action γ)) : elapsed (a :: r) = a.millis + elapsed r :=
  List.sum_cons

theorem Server.replay_world (s : Server γ) : s.replay.world = s.world := by
  unfold Server.replay
  split
  · rfl
  · split <;> rfl

theorem Server.replay_totalmillis (s : Server γ) : s.replay.totalmillis = s.totalmillis := by
  unfold Server.replay
  split
  · rfl
  · split <;> rfl

theorem Server.replay_is_delayed (s : Server γ) :
    s.replay.isDelayedSpectator = s.isDelayedSpectator := by
  unfold Server.replay
  split
  · rfl
  · split <;> rfl

theorem Server.replay_unseen (s : Server γ) : s.replay.Unseen ↔ s.Unseen := by
  unfold Server.Unseen
  rw [s.replay_world, s.replay_is_delayed]

/-! ## What stays unseen -/

/-- Two servers that agree on all that is not live. -/
structure Same (s t : Server γ) : Prop where
  clients : t.world.clients = s.world.clients
  clientnum : ∀ i, (t.world.info i).clientnum = (s.world.info i).clientnum
  viewer : t.viewer = s.viewer
  totalmillis : t.totalmillis = s.totalmillis
  gamemillis : t.gamemillis = s.gamemillis
  gamelimit : t.gamelimit = s.gamelimit
  spectatorDelay : t.spectatorDelay = s.spectatorDelay
  interm : t.interm = s.interm
  nonlocalclients : t.nonlocalclients = s.nonlocalclients
  demorecord : t.demorecord = s.demorecord

namespace Same

variable {s t u : Server γ}

theorem refl (s : Server γ) : Same s s :=
  ⟨rfl, fun _ => rfl, rfl, rfl, rfl, rfl, rfl, rfl, rfl, rfl⟩

theorem symm (h : Same s t) : Same t s :=
  ⟨h.clients.symm, fun i => (h.clientnum i).symm, h.viewer.symm, h.totalmillis.symm,
    h.gamemillis.symm, h.gamelimit.symm, h.spectatorDelay.symm, h.interm.symm,
    h.nonlocalclients.symm, h.demorecord.symm⟩

theorem trans (h : Same s t) (h' : Same t u) : Same s u :=
  ⟨h'.clients.trans h.clients, fun i => (h'.clientnum i).trans (h.clientnum i),
    h'.viewer.trans h.viewer, h'.totalmillis.trans h.totalmillis,
    h'.gamemillis.trans h.gamemillis, h'.gamelimit.trans h.gamelimit,
    h'.spectatorDelay.trans h.spectatorDelay, h'.interm.trans h.interm,
    h'.nonlocalclients.trans h.nonlocalclients, h'.demorecord.trans h.demorecord⟩

theorem is_delayed_eq (h : Same s t) : t.isDelayedSpectator = s.isDelayedSpectator := by
  funext i
  simp only [Server.isDelayedSpectator, h.spectatorDelay, h.viewer]

theorem idle_iff (h : Same s t) : t.idle ↔ s.idle := by
  unfold Server.idle
  rw [h.clients, h.nonlocalclients, h.demorecord]

end Same

/-- More is kept for later, and nothing has been sent to delayed spectators. -/
structure Extends (s t : Server γ) : Prop extends Same s t where
  kept : ∃ more, t.delayedSendpackets = s.delayedSendpackets ++ more ∧
    ∀ d ∈ more, d.time = s.totalmillis + s.spectatorDelay
  seen : ∀ c, t.seen c = s.seen c

namespace Extends

variable {s t u : Server γ}

theorem refl (s : Server γ) : Extends s s :=
  ⟨.refl s, ⟨[], (List.append_nil _).symm, nofun⟩, fun _ => rfl⟩

theorem trans (h : Extends s t) (h' : Extends t u) : Extends s u := by
  obtain ⟨more, hmore, htime⟩ := h.kept
  obtain ⟨more', hmore', htime'⟩ := h'.kept
  refine ⟨h.toSame.trans h'.toSame, ⟨more ++ more', ?_, fun d hd => ?_⟩,
    fun c => (h'.seen c).trans (h.seen c)⟩
  · rw [hmore', hmore, List.append_assoc]
  · rcases List.mem_append.mp hd with hd | hd
    · exact htime d hd
    · rw [htime' d hd, h.totalmillis, h.spectatorDelay]

theorem recordpacket (s : Server γ) (chan : Nat) (data : List UInt8) :
    Extends s (s.recordpacket chan data) := by
  unfold Server.recordpacket
  split
  · exact refl s
  · exact ⟨⟨rfl, fun _ => rfl, rfl, rfl, rfl, rfl, rfl, rfl, rfl, rfl⟩,
      ⟨_, rfl, fun d hd => by rw [List.mem_singleton.mp hd]⟩, fun _ => rfl⟩

theorem recordpackets (s : Server γ) (rs : List (Nat × List UInt8)) :
    Extends s (rs.foldl (fun s r => s.recordpacket r.1 r.2) s) := by
  induction rs generalizing s with
  | nil => exact refl s
  | cons r rs ih => exact (recordpacket s r.1 r.2).trans (ih _)

theorem recordpackets_world (s : Server γ) (rs : List (Nat × List UInt8)) :
    (rs.foldl (fun s r => s.recordpacket r.1 r.2) s).world = s.world := by
  induction rs generalizing s with
  | nil => rfl
  | cons r rs ih =>
    rw [List.foldl_cons, ih]
    unfold Server.recordpacket
    split <;> rfl

theorem modify (s : Server γ) (i : Handle) (position messages : List UInt8) :
    Extends s (s.modify i position messages) where
  toSame := by
    refine ⟨rfl, fun j => ?_, rfl, rfl, rfl, rfl, rfl, rfl, rfl, rfl⟩
    by_cases hj : j = i
    · subst hj
      simp [Server.modify]
    · simp [Server.modify, Function.update_of_ne hj]
  kept := ⟨[], (List.append_nil _).symm, nofun⟩
  seen _ := rfl

/-- The game is not seen by itself. -/
theorem game (s : Server γ) (g : γ) : Extends s { s with game := g } :=
  ⟨⟨rfl, fun _ => rfl, rfl, rfl, rfl, rfl, rfl, rfl, rfl, rfl⟩,
    ⟨[], (List.append_nil _).symm, nofun⟩, fun _ => rfl⟩

/-- Packets for others than delayed spectators. -/
theorem seen_append {s : Server γ} {ps : List Sent} (h : ∀ p ∈ ps, p.delayed = false) (c : Handle) :
    ({ s with sent := s.sent ++ ps } : Server γ).seen c = s.seen c := by
  unfold Server.seen
  rw [List.filter_append, List.append_right_eq_self, List.filter_eq_nil_iff]
  intro p hp
  simp [h p hp]

theorem sent {s : Server γ} {ps : List Sent} (h : ∀ p ∈ ps, p.delayed = false) :
    Extends s { s with sent := s.sent ++ ps } :=
  ⟨⟨rfl, fun _ => rfl, rfl, rfl, rfl, rfl, rfl, rfl, rfl, rfl⟩,
    ⟨[], (List.append_nil _).symm, nofun⟩, seen_append h⟩

/-- A packet for clients that do not look on. -/
theorem sendpacket {s : Server γ} {ns : List Handle} (h : ∀ n ∈ ns, s.isDelayedSpectator n = false)
    (chan : Nat) (data : List UInt8) : Extends s (s.sendpacket ns chan data) :=
  sent fun p hp => by
    obtain ⟨n, hn, rfl⟩ := List.mem_map.mp hp
    exact h n hn

theorem broadcast (s : Server γ) (chan : Nat) (data : List UInt8) (exclude : Option Handle) :
    Extends s (s.broadcast chan data exclude) := by
  have hrecord := recordpacket s chan data
  refine hrecord.trans (sendpacket (fun i hi => ?_) _ _)
  rw [hrecord.is_delayed_eq]
  simpa using (of_decide_eq_true (List.mem_filter.mp hi).2).2.2

theorem flushclientposition (s : Server γ) (i : Handle) (ownernum : Option Handle) :
    Extends s (s.flushclientposition i ownernum) := by
  unfold Server.flushclientposition
  split
  · exact refl s
  · exact (modify s i _ _).trans (broadcast _ _ _ _)

/-- The world state, if there is nothing in it from others. -/
theorem worldstate (servermtu : Int) (h : s.Unseen) : Extends s (s.worldstate servermtu) := by
  have hrecord := recordpackets s (buildworldstate servermtu s.world).recorded
  have hsent : ∀ p ∈ (buildworldstate servermtu s.world).sent,
      s.isDelayedSpectator (s.world.sendpacket p.dest) = false := by
    intro p hp
    obtain ⟨hmem, hhuman, -⟩ := (addressed s.hosting servermtu).sent p hp
    refine Bool.eq_false_iff.mpr fun hdelayed => ?_
    exact (h _ hmem hhuman hdelayed).dest_ne s.hosting servermtu hp rfl
  have hrecorded := recordpackets_world s (buildworldstate servermtu s.world).recorded
  refine hrecord.trans ⟨⟨rfl, fun i => ?_, rfl, rfl, rfl, rfl, rfl, rfl, rfl, rfl⟩,
    ⟨[], (List.append_nil _).symm, nofun⟩, seen_append fun p hp => ?_⟩
  · show ((buildworldstate servermtu _).info i).clientnum = _
    rw [buildworldstate_clientnum]
  · obtain ⟨q, hq, rfl⟩ := List.mem_map.mp hp
    dsimp only
    rw [hrecord.is_delayed_eq, hrecorded]
    exact hsent q hq

/-- The first packet that is kept is not due. -/
theorem replay_of_late (h : ∀ d ∈ s.delayedSendpackets, s.totalmillis < d.time) :
    s.replay = s := by
  unfold Server.replay
  split
  · rfl
  · rename_i d ds hkept
    rw [if_neg]
    have := h d (hkept ▸ List.mem_cons_self)
    omega

/-- Nothing that is live reaches a delayed spectator. -/
theorem step (s : Server γ) {a : Action γ} (ha : a.live = true) (hq : Quiet s a) :
    Extends s (s.step a) := by
  cases a with
  | position i data => exact modify s i _ _
  | message i data => exact modify s i _ _
  | play f => exact game s _
  | broadcast chan data exclude => exact broadcast s chan data exclude
  | flushclientposition i ownernum => exact flushclientposition s i ownernum
  | recordpacket chan data => exact recordpacket s chan data
  | sendf ns chan data => exact sendpacket hq chan data
  | sendclipboard servermtu needs data =>
    show Extends s (s.sendclipboard servermtu needs data)
    unfold Server.sendclipboard
    by_cases hneeds : needs = []
    · rw [if_pos hneeds]
      exact refl s
    rw [if_neg hneeds]
    obtain ⟨hnobody, hflush⟩ := hq hneeds
    have hflushed : Extends s (s.sendpackets true servermtu) := by
      unfold Server.sendpackets
      by_cases hidle : s.idle
      · rw [if_pos hidle]
        exact refl s
      obtain ⟨hunseen, hlate⟩ := hflush hidle
      rw [if_neg hidle, if_pos rfl, replay_of_late hlate]
      exact worldstate servermtu hunseen
    refine hflushed.trans (sendpacket (fun n hn => ?_) _ _)
    rw [hflushed.is_delayed_eq]
    exact hnobody n hn
  | _ => cases ha

end Extends

theorem Server.totalmillis_sendpackets (s : Server γ) (due : Bool) (servermtu : Int) :
    (s.sendpackets due servermtu).totalmillis = s.totalmillis := by
  unfold Server.sendpackets
  split
  · rfl
  · split
    · exact (Extends.recordpackets s.replay _).totalmillis.trans s.replay_totalmillis
    · exact s.replay_totalmillis

theorem Server.totalmillis_tell (s : Server γ) (i : Handle) (broadcast : Bool)
    (data : List UInt8) : (s.tell i broadcast data).totalmillis = s.totalmillis := by
  unfold Server.tell
  split
  · exact (Extends.broadcast s 1 data none).totalmillis
  · rfl

theorem Server.totalmillis_tellDelay (s : Server γ) (i : Handle) (data timeup : List UInt8) :
    (s.tellDelay i data timeup).totalmillis = s.totalmillis := by
  unfold Server.tellDelay
  split <;> rfl

theorem Server.totalmillis_step (s : Server γ) (a : Action γ) :
    (s.step a).totalmillis = s.totalmillis + a.millis := by
  cases a with
  | tick millis => rfl
  | broadcast chan data exclude =>
    exact (Extends.broadcast s chan data exclude).totalmillis.trans (Int.add_zero _).symm
  | flushclientposition i ownernum =>
    exact (Extends.flushclientposition s i ownernum).totalmillis.trans (Int.add_zero _).symm
  | recordpacket chan data =>
    exact (Extends.recordpacket s chan data).totalmillis.trans (Int.add_zero _).symm
  | sendclipboard servermtu needs data =>
    refine Eq.trans ?_ (Int.add_zero _).symm
    show (s.sendclipboard servermtu needs data).totalmillis = s.totalmillis
    unfold Server.sendclipboard
    split
    · rfl
    · exact s.totalmillis_sendpackets true servermtu
  | sendpackets due servermtu =>
    exact (s.totalmillis_sendpackets due servermtu).trans (Int.add_zero _).symm
  | setspectator i val broadcast =>
    refine Eq.trans ?_ (Int.add_zero _).symm
    show (s.setspectator i val broadcast).totalmillis = s.totalmillis
    unfold Server.setspectator
    split
    · rfl
    · dsimp only
      rw [Server.totalmillis_tellDelay, Server.totalmillis_tell]
      rfl
  | _ => exact (Int.add_zero _).symm

/-! ## What the runs have in common -/

/-- Two servers that agree on all that is not live, on what is kept for the time before `limit`,
and on what has been seen. -/
structure Sim (limit : Int) (s s' : Server γ) : Prop extends Same s s' where
  kept : ∃ old new new', s.delayedSendpackets = old ++ new ∧
    s'.delayedSendpackets = old ++ new' ∧ (∀ d ∈ new, limit ≤ d.time) ∧ ∀ d ∈ new', limit ≤ d.time
  limit_le : limit ≤ s.totalmillis + s.spectatorDelay
  seen : ∀ c, s'.seen c = s.seen c

namespace Sim

variable {limit : Int} {s s' t t' : Server γ}

theorem refl (h : limit ≤ s.totalmillis + s.spectatorDelay) : Sim limit s s :=
  ⟨.refl s, ⟨s.delayedSendpackets, [], [], (List.append_nil _).symm, (List.append_nil _).symm,
    nofun, nofun⟩, h, fun _ => rfl⟩

theorem symm (h : Sim limit s s') : Sim limit s' s := by
  obtain ⟨old, new, new', hnew, hnew', hlate, hlate'⟩ := h.kept
  refine ⟨h.toSame.symm, ⟨old, new', new, hnew', hnew, hlate', hlate⟩, ?_,
    fun c => (h.seen c).symm⟩
  rw [h.totalmillis, h.spectatorDelay]
  exact h.limit_le

/-- What stays unseen does not matter. -/
theorem left (h : Sim limit s s') (hext : Extends s t) : Sim limit t s' := by
  obtain ⟨old, new, new', hnew, hnew', hlate, hlate'⟩ := h.kept
  obtain ⟨more, hmore, htime⟩ := hext.kept
  refine ⟨hext.toSame.symm.trans h.toSame, ⟨old, new ++ more, new', ?_, hnew', fun d hd => ?_,
    hlate'⟩, ?_, fun c => (h.seen c).trans (hext.seen c).symm⟩
  · rw [hmore, hnew, List.append_assoc]
  · rcases List.mem_append.mp hd with hd | hd
    · exact hlate d hd
    · rw [htime d hd]
      exact h.limit_le
  · rw [hext.totalmillis, hext.spectatorDelay]
    exact h.limit_le

theorem right (h : Sim limit s s') (hext : Extends s' t) : Sim limit s t :=
  (h.symm.left hext).symm

theorem both (h : Sim limit s s') (hext : Extends s t) (hext' : Extends s' t') : Sim limit t t' :=
  (h.left hext).right hext'

/-- A packet that is the same in both runs. -/
theorem sendpacket (h : Sim limit s s') (ns : List Handle) (chan : Nat) (data : List UInt8) :
    Sim limit (s.sendpacket ns chan data) (s'.sendpacket ns chan data) :=
  { h with
    toSame := { h.toSame with }
    seen := fun c => by
      have hseen := h.seen c
      simp only [Server.seen] at hseen
      simp only [Server.seen, Server.sendpacket, List.filter_append, hseen, h.is_delayed_eq] }

/-- A packet that tells of the game, for clients that do not look on if it tells anything. -/
theorem unicast (h : Sim limit s s') {ns : List Handle} (chan : Nat) {packet : γ → List UInt8}
    (hq : (∃ n ∈ ns, s.isDelayedSpectator n = true) → ∀ g g', packet g = packet g') :
    Sim limit (s.sendpacket ns chan (packet s.game)) (s'.sendpacket ns chan (packet s'.game)) := by
  by_cases hns : ∃ n ∈ ns, s.isDelayedSpectator n = true
  · rw [hq hns s'.game s.game]
    exact h.sendpacket ns chan _
  · have hnobody : ∀ n ∈ ns, s.isDelayedSpectator n = false := fun n hn =>
      Bool.eq_false_iff.mpr fun hdelayed => hns ⟨n, hn, hdelayed⟩
    refine h.both (.sendpacket hnobody _ _) (.sendpacket (fun n hn => ?_) _ _)
    rw [h.is_delayed_eq]
    exact hnobody n hn

theorem join (h : Sim limit s s') (i : Handle) (locked : Bool) (specmillis : Int) :
    Sim limit (s.join i locked specmillis) (s'.join i locked specmillis) :=
  { h with toSame := { h.toSame with viewer := by simp only [Server.join, h.viewer] } }

theorem look (h : Sim limit s s') (i : Handle) (val : Bool) :
    Sim limit (s.look i val) (s'.look i val) :=
  { h with
    toSame := { h.toSame with
      viewer := by simp only [Server.look, h.viewer, h.totalmillis] } }

theorem tell (h : Sim limit s s') (i : Handle) (broadcast : Bool) (data : List UInt8) :
    Sim limit (s.tell i broadcast data) (s'.tell i broadcast data) := by
  unfold Server.tell
  split
  · exact h.both (.broadcast s 1 data none) (.broadcast s' 1 data none)
  · exact h.sendpacket [i] 1 data

theorem tellDelay (h : Sim limit s s') (i : Handle) (data timeup : List UInt8) :
    Sim limit (s.tellDelay i data timeup) (s'.tellDelay i data timeup) := by
  unfold Server.tellDelay
  rw [h.spectatorDelay]
  split
  · exact h
  · exact (h.sendpacket [i] 1 data).sendpacket [i] 1 timeup

/-- The first packet that is kept is the same, or its time has not come. -/
theorem replay (h : Sim limit s s') (hnow : s.totalmillis < limit) :
    Sim limit s.replay s'.replay := by
  obtain ⟨old, new, new', hnew, hnew', hlate, hlate'⟩ := h.kept
  have hlimit := h.limit_le
  cases old with
  | nil =>
    rw [List.nil_append] at hnew hnew'
    rw [Extends.replay_of_late, Extends.replay_of_late]
    · exact h
    · rw [hnew', h.totalmillis]
      exact fun d hd => hnow.trans_le (hlate' d hd)
    · rw [hnew]
      exact fun d hd => hnow.trans_le (hlate d hd)
  | cons d old =>
    rw [List.cons_append] at hnew hnew'
    unfold Server.replay
    rw [hnew, hnew', h.totalmillis]
    dsimp only
    split
    · -- whom it is for is the same in both runs
      have hsame : (s'.world.clients.filter fun i => s'.isDelayedSpectator i ∧
            ¬ (s'.viewer i).specmillis + s'.spectatorDelay > s.totalmillis) =
          s.world.clients.filter fun i => s.isDelayedSpectator i ∧
            ¬ (s.viewer i).specmillis + s.spectatorDelay > s.totalmillis := by
        rw [h.clients, h.viewer, h.spectatorDelay, h.is_delayed_eq]
      rw [hsame]
      have hsent := h.sendpacket (s.world.clients.filter fun i => s.isDelayedSpectator i ∧
        ¬ (s.viewer i).specmillis + s.spectatorDelay > s.totalmillis) d.channel d.data
      exact { hsent with
        toSame := { hsent.toSame with }
        kept := ⟨old, new, new', rfl, rfl, hlate, hlate'⟩ }
    · exact h

/-- Actions that are the same in both runs. -/
theorem step (h : Sim limit s s') (a : Action γ) (hnow : s.totalmillis < limit) (hq : Quiet s a)
    (hq' : Quiet s' a) : Sim limit (s.step a) (s'.step a) := by
  by_cases ha : a.live = true
  · exact h.both (.step s ha hq) (.step s' ha hq')
  have hlimit := h.limit_le
  cases a with
  | sendpackets due servermtu =>
    show Sim limit (s.sendpackets due servermtu) (s'.sendpackets due servermtu)
    unfold Server.sendpackets
    by_cases hidle : s.idle
    · rw [if_pos hidle, if_pos (h.idle_iff.mpr hidle)]
      exact h
    · have hidle' : ¬ s'.idle := fun hi => hidle (h.idle_iff.mp hi)
      rw [if_neg hidle, if_neg hidle']
      cases due with
      | false => exact h.replay hnow
      | true =>
        exact (h.replay hnow).both (.worldstate servermtu (s.replay_unseen.mpr (hq hidle)))
          (.worldstate servermtu (s'.replay_unseen.mpr (hq' hidle')))
  | tick millis =>
    refine { h with
      toSame := { h.toSame with totalmillis := congrArg (· + (millis : Int)) h.totalmillis }
      limit_le := ?_ }
    show limit ≤ s.totalmillis + millis + s.spectatorDelay
    omega
  | clock gamemillis gamelimit =>
    exact { h with toSame := { h.toSame with gamemillis := rfl, gamelimit := rfl } }
  | game f => exact h.both (.game s _) (.game s' _)
  | roster r =>
    exact { h with toSame := { h.toSame with clients := rfl, clientnum := fun _ => rfl } }
  | connected i locked specmillis welcomepacket =>
    refine (h.join i locked specmillis).unicast 1 fun ⟨n, hn, hdelayed⟩ => ?_
    rw [List.mem_singleton.mp hn] at hdelayed
    obtain ⟨hdelay, hlooks, -⟩ := of_decide_eq_true hdelayed
    simp only [Server.join, Function.update_self] at hlooks
    exact hq hlooks hdelay
  | unicast ns chan packet => exact h.unicast chan hq
  | setspectator i val broadcast =>
    show Sim limit (s.setspectator i val broadcast) (s'.setspectator i val broadcast)
    unfold Server.setspectator
    rw [h.viewer, h.clientnum, h.gamelimit, h.gamemillis, h.spectatorDelay]
    split
    · exact h
    · exact ((h.look i val).tell i broadcast _).tellDelay i _ _
  | setprivilege i admin =>
    exact { h with toSame := { h.toSame with viewer := by simp only [Server.step, h.viewer] } }
  | intermission val => exact { h with toSame := { h.toSame with interm := rfl } }
  | connections nonlocalclients demorecord =>
    exact { h with toSame := { h.toSame with nonlocalclients := rfl, demorecord := rfl } }
  | _ => exact absurd rfl ha

/-- Whole runs, while nothing of what is kept in them has had its time. -/
theorem run {r r' : List (Action γ)} (halike : Alike r r') (h : Sim limit s s')
    (hlast : s.totalmillis + elapsed r < limit) (hq : Machine.Along Quiet Server.step s r)
    (hq' : Machine.Along Quiet Server.step s' r') :
    Sim limit (Machine.run Server.step s r) (Machine.run Server.step s' r') := by
  induction halike generalizing s s' with
  | nil => exact h
  | @left a r r' ha _ ih =>
    rw [elapsed_cons] at hlast
    refine ih (h.left (.step s ha hq.1)) ?_ hq.2 hq'
    rw [Server.totalmillis_step]
    omega
  | right ha _ ih => exact ih (h.right (.step s' ha hq'.1)) hlast hq hq'.2
  | @both a r r' _ ih =>
    rw [elapsed_cons] at hlast
    refine ih (h.step a (by omega) hq.1 hq'.1) ?_ hq.2 hq'.2
    rw [Server.totalmillis_step]
    omega

end Sim

/-- The barrier, as far as it goes. Take any state with a delay for spectators, and two runs from it
that last less than this delay and differ only in what comes from those who play. If in both runs
nothing of others is in a world state for those who look on, and nothing that comes from players or
tells of the game is sent to one of them alone, then each client is sent the same packets as a
delayed spectator. -/
theorem barrier (s : Server γ) {r r' : List (Action γ)} (halike : Alike r r')
    (hlast : elapsed r < s.spectatorDelay) (hq : Machine.Along Quiet Server.step s r)
    (hq' : Machine.Along Quiet Server.step s r') (c : Handle) :
    (Machine.run Server.step s r').seen c = (Machine.run Server.step s r).seen c :=
  (Sim.run halike (.refl (Int.le_refl _)) (by omega) hq hq').seen c

/-- A player, and a spectator who looks on five seconds late; the game is a score. -/
def onlooker : Server Nat where
  world := ⟨fun i => ⟨Int32.ofNat i, Int32.ofNat i, false, [], [], [], 0, none, 0⟩, [0, 1], 1000, [],
    fun n => n.toInt.toNat⟩
  hosting := ⟨by decide, by decide, by decide, by decide, by decide, by decide⟩
  viewer i := ⟨i = 1, false, 0⟩
  totalmillis := 10000
  gamemillis := 60000
  gamelimit := 600000
  spectatorDelay := 5000
  interm := false
  nonlocalclients := 2
  demorecord := false
  delayedSendpackets := []
  sent := []
  game := 0

/-- The player scores, which is broadcast, and is told of it; then it looks on, too. -/
theorem barrier_onlooker :
    (Machine.run Server.step onlooker [.play (· + 1), .broadcast 1 [7] none, .sendf [0] 1 [8],
        .unicast [0] 1 fun score => [UInt8.ofNat score], .tick 40, .sendpackets true 1400,
        .setspectator 0 true true]).seen 0 =
      (Machine.run Server.step onlooker [.unicast [0] 1 fun score => [UInt8.ofNat score], .tick 40,
        .sendpackets true 1400, .setspectator 0 true true]).seen 0 :=
  have halike : Alike [.unicast [0] 1 fun score => [UInt8.ofNat score], .tick 40,
        .sendpackets true 1400, .setspectator 0 true true]
      [.play (· + 1), .broadcast 1 [7] none, .sendf [0] 1 [8],
        .unicast [0] 1 fun score => [UInt8.ofNat score], .tick 40, .sendpackets true 1400,
        .setspectator 0 true true] :=
    .right rfl (.right rfl (.right rfl (.both _ (.both _ (.both _ (.both _ .nil))))))
  have hplayer : ¬ ∃ n ∈ [0], (onlooker.isDelayedSpectator n) = true := by decide
  barrier onlooker halike (by decide)
    ⟨fun h => absurd h hplayer, trivial, fun _ => by decide, trivial, trivial⟩
    ⟨trivial, trivial, fun n hn => by rw [List.mem_singleton.mp hn]; decide,
      fun h => absurd h hplayer, trivial, fun _ => by decide, trivial, trivial⟩ 0

/-- The spectator is sent the position of the player at once, in the world state. -/
theorem windows_pass_barrier : ¬ ∀ (s : Server Nat) (r r' : List (Action Nat)), Alike r r' →
    elapsed r < s.spectatorDelay → ∀ c,
      (Machine.run Server.step s r').seen c = (Machine.run Server.step s r).seen c := by
  intro h
  have hsame := h onlooker [.position 0 [4, 0, 1], .sendpackets true 1400] [.sendpackets true 1400]
    (.left rfl (.both _ .nil)) (by decide) 1
  exact absurd hsame (by decide +kernel)

end Delay

end Zuckerserv

import Zuckerserv.Fps.Protocol
import Zuckerserv.Shared.NetInt

/-!
# The world state

`buildworldstate` of `fpsgame/server.cpp`: the positions and then the messages that the
clients have queued are laid block by block into one buffer, and every client is sent a
window of it that leaves out its own blocks and those of its bots. To make every such
window one piece, the buffer is copied onto its end; when the next block would exceed the
MTU the buffer is sent first and a new one is begun behind it in the same memory.

* `ClientInfo`, `World` — the clients, reached through handles as through pointers.
* `World.sendpacket` — the client that a packet for a client number gets to.
* `Channel` — positions and messages differ in the bytes of a block and in little else.
* `sendpending`, `addpending`, `buildworldstate` — the functions of the source.
* `Packet.bytes` — a packet is a pointer into the memory, read when all is written.
-/

namespace Zuckerserv

namespace WorldState

/-- A `clientinfo *`. -/
abbrev Handle := Nat

/-- The fields of `clientinfo` that the world state uses. -/
structure ClientInfo where
  /-- `clientnum`; a spy has one from `spycn` on. -/
  clientnum : Int32
  /-- The number of its connection. -/
  n : Int32
  /-- `state.aitype != AI_NONE`. -/
  isBot : Bool
  /-- The bots a client hosts. -/
  bots : List Handle
  /-- The position it has sent, not yet passed on. -/
  position : List UInt8
  /-- The messages it has sent, not yet passed on. -/
  messages : List UInt8
  /-- Messages counted by `checktype` since the last world state. -/
  overflow : Int
  /-- Where its blocks begin in the world state buffer; `none` is `NULL`. -/
  wsdata : Option Nat
  /-- The number of bytes of its blocks. -/
  wslen : Nat

/-- The clients of the server. -/
structure World where
  /-- What the handles point to. -/
  info : Handle → ClientInfo
  /-- `clients`: the connected clients and the bots. -/
  clients : List Handle
  spycn : Int32
  spies : List Handle
  /-- `clients[n]->info` of the engine: the client at the connection `n`. -/
  peer : Int32 → Handle

/-- `void real_cn(int &n)`; behind the list of spies there is nothing to be read. -/
def World.realCn (w : World) (n : Int32) : Int32 :=
  match w.spies[(n - w.spycn).toInt.toNat]? with
  | some i => (w.info i).n
  | none => n

/-- `sendpacket(n, chan, packet)` for one client: the client that gets it. -/
def World.sendpacket (w : World) (n : Int32) : Handle :=
  w.peer (if n ≥ w.spycn then w.realCn n else n)

/-- What is queued for one channel: positions for channel 0, messages for channel 1. -/
structure Channel where
  /-- The number of the channel. -/
  chan : Nat
  /-- The queue. -/
  get : ClientInfo → List UInt8
  /-- `setsize(0)` on the queue. -/
  clear : ClientInfo → ClientInfo
  /-- The bytes that are reserved for a block besides those of the queue. -/
  header : Nat
  /-- Write the block into the buffer. -/
  put : DataBuf → ClientInfo → DataBuf

/-- The position channel. -/
def positions : Channel where
  chan := 0
  get := ClientInfo.position
  clear ci := { ci with position := [] }
  header := 0
  put wsbuf bi := wsbuf.putVals bi.position

/-- The message channel. -/
def messages : Channel where
  chan := 1
  get := ClientInfo.messages
  clear ci := { ci with messages := [] }
  header := 10
  put wsbuf bi :=
    let wsbuf := putint wsbuf Msg.N_CLIENT.code
    let wsbuf := putint wsbuf bi.clientnum
    let wsbuf := putuint wsbuf (Int32.ofNat bi.messages.length)
    wsbuf.putVals bi.messages

/-- A packet made with `ENET_PACKET_FLAG_NO_ALLOCATE`: it points into the memory of the
world state. -/
structure Packet where
  /-- The number of the client it is sent to. -/
  dest : Int32
  /-- The channel it is sent on. -/
  chan : Nat
  /-- Its first byte. -/
  data : Nat
  /-- Its length. -/
  size : Nat

/-- The bytes of a packet, the memory being `mem`. -/
def Packet.bytes (mem : List UInt8) (p : Packet) : List UInt8 := (mem.drop p.data).take p.size

/-- The variables of `buildworldstate`. -/
structure State where
  /-- The clients. -/
  info : Handle → ClientInfo
  /-- The memory in front of `wsbuf.buf`. -/
  front : List UInt8
  /-- `wsbuf`. -/
  wsbuf : DataBuf
  /-- The packets sent so far. -/
  sent : List Packet
  /-- What has been passed to `recordpacket`: the channel and the bytes. -/
  recorded : List (Nat × List UInt8)

namespace State

/-- The whole memory `ws.data`. -/
def memory (s : State) : List UInt8 := s.front ++ s.wsbuf.buf

/-- The pointer `wsbuf.buf`. -/
def base (s : State) : Nat := s.front.length

/-- `ci.wsdata >= wsbuf.buf`; `NULL` is below every buffer. -/
def inBuffer (s : State) (i : Handle) : Option Nat :=
  (s.info i).wsdata.filter (s.base ≤ ·)

end State

/-- The window of one client in `sendpositions` and `sendmessages`, `wslen` bytes being
laid: everything, or what follows its own blocks in the doubled buffer. -/
def window (s : State) (chan wslen : Nat) (i : Handle) : Option Packet :=
  if (s.info i).isBot then none
  else
    let (data, size) := match s.inBuffer i with
      | some p => (p + (s.info i).wslen, (wslen : Int) - (s.info i).wslen)
      | none => (s.base, (wslen : Int))
    if size ≤ 0 then none else some ⟨(s.info i).clientnum, chan, data, size.toNat⟩

/-- `sendpositions` and `sendmessages`. -/
def sendpending (ch : Channel) (clients : List Handle) (s : State) : State :=
  if s.wsbuf.len = 0 then s
  else
    let wslen := s.wsbuf.len
    let wsbuf := s.wsbuf.putVals (s.wsbuf.buf.take wslen)
    { s with
      recorded := s.recorded ++ [(ch.chan, s.wsbuf.buf.take wslen)]
      sent := s.sent ++ clients.filterMap (window s ch.chan wslen)
      front := s.front ++ wsbuf.buf.take wsbuf.len
      wsbuf := wsbuf.offset wsbuf.len }

/-- `addposition` and `addmessages`: the block of `bi`, in the name of `ci`. -/
def addpending (ch : Channel) (clients : List Handle) (mtu : Int) (bi ci : Handle)
    (s : State) : State :=
  if ch.get (s.info bi) = [] then s
  else
    let s := if (s.wsbuf.len + ch.header + (ch.get (s.info bi)).length : Int) > mtu then
      sendpending ch clients s else s
    let offset := s.wsbuf.len
    let wsbuf := ch.put s.wsbuf (s.info bi)
    let info := Function.update s.info bi (ch.clear (s.info bi))
    let len := wsbuf.len - offset
    let c := info ci
    { s with
      wsbuf
      info := Function.update info ci <| match s.inBuffer ci with
        | some _ => { c with wslen := c.wslen + len }
        | none => { c with wsdata := some (s.base + offset), wslen := len } }

/-- `void sendpositions(worldstate &ws, ucharbuf &wsbuf)`. -/
def sendpositions : List Handle → State → State := sendpending positions

/-- `void sendmessages(worldstate &ws, ucharbuf &wsbuf)`. -/
def sendmessages : List Handle → State → State := sendpending messages

/-- `void addposition(worldstate &ws, ucharbuf &wsbuf, int mtu, clientinfo &bi,
clientinfo &ci)`. -/
def addposition : List Handle → Int → Handle → Handle → State → State := addpending positions

/-- `void addmessages(worldstate &ws, ucharbuf &wsbuf, int mtu, clientinfo &bi,
clientinfo &ci)`. -/
def addmessages : List Handle → Int → Handle → Handle → State → State := addpending messages

/-- The body of the loops over `clients`: a human and then its bots. -/
def addclient (add : Handle → Handle → State → State) (s : State) (i : Handle) : State :=
  if (s.info i).isBot then s
  else (s.info i).bots.foldl (fun s j => add j i s) (add i i s)

/-- The bytes that `buildworldstate` reserves for a client. -/
def reserve (ci : ClientInfo) : Nat :=
  ci.position.length + if ci.messages = [] then 0 else 10 + ci.messages.length

/-- `bool buildworldstate()`, `servermtu` being the value of `getservermtu()`. -/
def buildworldstate (servermtu : Int) (w : World) : State :=
  let info i := if i ∈ w.clients then { w.info i with overflow := 0, wsdata := none } else w.info i
  let wsmax := (w.clients.map fun i => reserve (w.info i)).sum
  let s : State := ⟨info, [], DataBuf.ofBytes (List.replicate (2 * wsmax) 0), [], []⟩
  if wsmax = 0 then s
  else
    let mtu := if servermtu - 100 ≤ 0 then (2 * wsmax : Int) else servermtu - 100
    let s := w.clients.foldl (addclient (addposition w.clients mtu)) s
    let s := sendpositions w.clients s
    let s := w.clients.foldl (addclient (addmessages w.clients mtu)) s
    sendmessages w.clients s

end WorldState

end Zuckerserv

import Zuckerserv.Enet.Stream
import Zuckerserv.Enet.Time

/-!
# The sending end of the reliable channels

A peer numbers the reliable commands of each channel, sends them as its windows allow, and keeps
each until it is acknowledged. What has not been acknowledged in time is queued again in front.

* `peerSend` — a packet is queued, in fragments if it is long.
* `sendReliableOutgoingCommands` — the commands that go into one datagram.
* `checkTimeouts` — what is to be sent again.
* `removeSentReliableCommand` — an acknowledgement.

The functions never look into the commands themselves, so the commands are of any type.
-/

namespace Zuckerserv

namespace Enet

/-- `ENetOutgoingCommand`, for the reliable commands that carry data. -/
structure OutgoingCommand (β : Type) where
  channelID : Nat
  reliableSequenceNumber : Nat
  sentTime : Nat
  roundTripTimeout : Nat
  roundTripTimeoutLimit : Nat
  fragmentLength : Nat
  sendAttempts : Nat
  /-- The entry of `commandSizes` for the command. -/
  commandSize : Nat
  command : β

/-- What `ENetChannel` holds for the sending end. -/
structure OutgoingChannel where
  outgoingReliableSequenceNumber : Nat
  reliableWindows : Nat → Nat
  usedReliableWindows : Nat

/-- What `ENetPeer` holds for the sending end. -/
structure Sender (β : Type) where
  channels : Nat → OutgoingChannel
  outgoingReliableCommands : List (OutgoingCommand β)
  sentReliableCommands : List (OutgoingCommand β)
  reliableDataInTransit : Nat
  earliestTimeout : Nat

variable {β : Type}

/-! ## Queueing a packet -/

namespace Body

/-- `dataLength` of the command. -/
def dataLength : Body → Nat
  | .sendReliable data => data.length
  | .sendFragment _ _ _ _ _ data => data.length

/-- The entry of `commandSizes`. -/
def commandSize : Body → Nat
  | .sendReliable _ => 6
  | .sendFragment _ _ _ _ _ _ => 24

end Body

/-- A channel takes the next number. -/
def OutgoingChannel.next (c : OutgoingChannel) : OutgoingChannel :=
  { c with outgoingReliableSequenceNumber := (c.outgoingReliableSequenceNumber + 1) % U16 }

/-- `enet_peer_setup_outgoing_command` for a command that is to be acknowledged. -/
def setupOutgoingCommand (s : Sender β) (channelID : Nat) (body : Body) (label : Command → β) :
    Sender β :=
  let channel := (s.channels channelID).next
  let number := channel.outgoingReliableSequenceNumber
  { s with
    channels := Function.update s.channels channelID channel
    outgoingReliableCommands := s.outgoingReliableCommands ++
      [{ channelID, reliableSequenceNumber := number, sentTime := 0, roundTripTimeout := 0
         roundTripTimeoutLimit := 0, fragmentLength := body.dataLength, sendAttempts := 0
         commandSize := body.commandSize
         command := label { reliableSequenceNumber := number, body } }] }

/-- The loop of `enet_peer_send` over the fragments; every round takes a byte at least. -/
def fragmentLoop (p : Packet) (startSequenceNumber fragmentCount : Nat) :
    Nat → Nat → Nat → Nat → List Body
  | 0, _, _, _ => []
  | fuel + 1, fragmentNumber, fragmentOffset, fragmentLength =>
    if fragmentOffset < p.length then
      let fragmentLength :=
        if p.length - fragmentOffset < fragmentLength then p.length - fragmentOffset
        else fragmentLength
      .sendFragment startSequenceNumber fragmentCount fragmentNumber p.length fragmentOffset
          ((p.drop fragmentOffset).take fragmentLength) ::
        fragmentLoop p startSequenceNumber fragmentCount fuel (fragmentNumber + 1)
          (fragmentOffset + fragmentLength) fragmentLength
    else []

/-- The commands of a packet, one after the other. -/
def setupAll (channelID : Nat) (label : Nat → Command → β) :
    Sender β → Nat → List Body → Sender β
  | s, _, [] => s
  | s, k, body :: bodies =>
    setupAll channelID label (setupOutgoingCommand s channelID body (label k)) (k + 1) bodies

/-- `enet_peer_send` for a reliable packet on a channel of a connected peer; `f` is the
`fragmentLength` it starts with. `none` is the return value `-1`. -/
def peerSend (maximumPacketSize f : Nat) (s : Sender β) (channelID : Nat) (p : Packet)
    (label : Nat → Command → β) : Option (Sender β) :=
  if maximumPacketSize < p.length then none
  else if f < p.length then
    let fragmentCount := (p.length + f - 1) / f
    if MAXIMUM_FRAGMENT_COUNT < fragmentCount then none
    else
      let startSequenceNumber := ((s.channels channelID).outgoingReliableSequenceNumber + 1) % U16
      some (setupAll channelID label s 0
        (fragmentLoop p startSequenceNumber fragmentCount p.length 0 0 f))
  else some (setupAll channelID label s 0 [.sendReliable p])

/-! ## Sending -/

/-- What `enet_protocol_send_reliable_outgoing_commands` reads of the host and the peer. -/
structure Pacing where
  serviceTime : Nat
  /-- `packetThrottle * windowSize / ENET_PEER_PACKET_THROTTLE_SCALE`. -/
  windowSize : Nat
  mtu : Nat
  /-- `roundTripTime + 4 * roundTripTimeVariance`. -/
  roundTripTimeout : Nat
  timeoutLimit : Nat
  /-- The sizes of the arrays `commands` and `buffers` of the host. -/
  maximumCommands : Nat
  maximumBuffers : Nat

/-- The state of the loop. -/
structure Sending (β : Type) where
  /-- The commands walked over that stay in `outgoingReliableCommands`. -/
  kept : List (OutgoingCommand β)
  channels : Nat → OutgoingChannel
  sentReliableCommands : List (OutgoingCommand β)
  reliableDataInTransit : Nat
  windowWrap : Bool
  windowExceeded : Bool
  commandCount : Nat
  bufferCount : Nat
  packetSize : Nat
  /-- What has been written to `host->commands`. -/
  commands : List β

/-- The eight windows from `window` on, as a mask. -/
def freeWindows (window : Nat) : Nat :=
  ((1 <<< FREE_RELIABLE_WINDOWS - 1) <<< window) |||
    ((1 <<< FREE_RELIABLE_WINDOWS - 1) >>> (RELIABLE_WINDOWS - window))

/-- The test that sets `windowWrap`. -/
def wraps (channel : OutgoingChannel) (o : OutgoingCommand β) : Bool :=
  let window := o.reliableSequenceNumber / RELIABLE_WINDOW_SIZE
  decide (o.sendAttempts < 1) && decide (o.reliableSequenceNumber % RELIABLE_WINDOW_SIZE = 0) &&
    (decide (RELIABLE_WINDOW_SIZE ≤
        channel.reliableWindows ((window + RELIABLE_WINDOWS - 1) % RELIABLE_WINDOWS)) ||
      decide (channel.usedReliableWindows &&& freeWindows window ≠ 0))

/-- There is no room for the command in the datagram. -/
def noRoom (h : Pacing) (s : Sending β) (o : OutgoingCommand β) : Bool :=
  decide (h.maximumCommands ≤ s.commandCount) || decide (h.maximumBuffers ≤ s.bufferCount + 1) ||
    decide (h.mtu - s.packetSize < o.commandSize) ||
    decide ((h.mtu - s.packetSize) % U16 < (o.commandSize + o.fragmentLength) % U16)

/-- A window counts one more command. -/
def OutgoingChannel.use (c : OutgoingChannel) (window : Nat) : OutgoingChannel :=
  { c with
    usedReliableWindows := c.usedReliableWindows ||| 1 <<< window
    reliableWindows := Function.update c.reliableWindows window
      ((c.reliableWindows window + 1) % U16) }

/-- The command is put into the datagram. -/
def sendCommand (h : Pacing) (s : Sending β) (o : OutgoingCommand β) : Sending β :=
  let channels := if o.sendAttempts < 1 then
      Function.update s.channels o.channelID
        ((s.channels o.channelID).use (o.reliableSequenceNumber / RELIABLE_WINDOW_SIZE))
    else s.channels
  let fresh := decide (o.roundTripTimeout = 0)
  let o := { o with
    sendAttempts := o.sendAttempts + 1
    roundTripTimeout := if fresh then h.roundTripTimeout else o.roundTripTimeout
    roundTripTimeoutLimit :=
      if fresh then (h.timeoutLimit * h.roundTripTimeout) % U32 else o.roundTripTimeoutLimit
    sentTime := h.serviceTime }
  { s with
    channels
    sentReliableCommands := s.sentReliableCommands ++ [o]
    reliableDataInTransit := (s.reliableDataInTransit + o.fragmentLength) % U32
    commandCount := s.commandCount + 1
    bufferCount := s.bufferCount + 2
    packetSize := s.packetSize + o.commandSize + o.fragmentLength
    commands := s.commands ++ [o.command] }

/-- The loop of `enet_protocol_send_reliable_outgoing_commands`. -/
def sendLoop (h : Pacing) : List (OutgoingCommand β) → Sending β → Sending β
  | [], s => s
  | o :: queue, s =>
    let windowWrap := s.windowWrap || wraps (s.channels o.channelID) o
    if windowWrap then sendLoop h queue { s with windowWrap, kept := s.kept ++ [o] }
    else
      let windowExceeded := s.windowExceeded ||
        decide (max h.windowSize h.mtu < s.reliableDataInTransit + o.fragmentLength)
      if windowExceeded then sendLoop h queue { s with windowExceeded, kept := s.kept ++ [o] }
      else if noRoom h s o then { s with kept := s.kept ++ o :: queue }
      else sendLoop h queue (sendCommand h s o)

/-- `enet_protocol_send_reliable_outgoing_commands`: the peer afterwards, and the commands in the
datagram. -/
def sendReliableOutgoingCommands (h : Pacing) (commandCount bufferCount packetSize : Nat)
    (s : Sender β) : Sender β × List β :=
  let t := sendLoop h s.outgoingReliableCommands
    { kept := [], channels := s.channels, sentReliableCommands := s.sentReliableCommands
      reliableDataInTransit := s.reliableDataInTransit, windowWrap := false
      windowExceeded := false, commandCount, bufferCount, packetSize, commands := [] }
  ({ s with
      channels := t.channels
      outgoingReliableCommands := t.kept
      sentReliableCommands := t.sentReliableCommands
      reliableDataInTransit := t.reliableDataInTransit }, t.commands)

/-! ## Sending again -/

/-- What `enet_protocol_check_timeouts` reads of the host and the peer. -/
structure Timing where
  serviceTime : Nat
  timeoutMinimum : Nat
  timeoutMaximum : Nat

/-- The loop of `enet_protocol_check_timeouts` over `sentReliableCommands`; `moved` is what has
been put in front of `outgoingReliableCommands`. `none`: the peer is disconnected. -/
def timeoutLoop (t : Timing) : List (OutgoingCommand β) → Nat → Nat →
    Option (List (OutgoingCommand β) × List (OutgoingCommand β) × Nat × Nat)
  | [], earliestTimeout, inTransit => some ([], [], earliestTimeout, inTransit)
  | o :: sent, earliestTimeout, inTransit =>
    if timeDifference t.serviceTime o.sentTime < o.roundTripTimeout then
      match timeoutLoop t sent earliestTimeout inTransit with
      | none => none
      | some (moved, kept, earliestTimeout, inTransit) =>
        some (moved, o :: kept, earliestTimeout, inTransit)
    else
      let earliestTimeout :=
        if earliestTimeout = 0 ∨ timeLess o.sentTime earliestTimeout then o.sentTime
        else earliestTimeout
      let elapsed := timeDifference t.serviceTime earliestTimeout
      if earliestTimeout ≠ 0 ∧ (t.timeoutMaximum ≤ elapsed ∨
          o.roundTripTimeoutLimit ≤ o.roundTripTimeout ∧ t.timeoutMinimum ≤ elapsed) then none
      else
        match timeoutLoop t sent earliestTimeout ((inTransit + (U32 - o.fragmentLength)) % U32) with
        | none => none
        | some (moved, kept, earliestTimeout, inTransit) =>
          some ({ o with roundTripTimeout := (o.roundTripTimeout * 2) % U32 } :: moved, kept,
            earliestTimeout, inTransit)

/-- `enet_protocol_check_timeouts`. -/
def checkTimeouts (t : Timing) (s : Sender β) : Option (Sender β) :=
  match timeoutLoop t s.sentReliableCommands s.earliestTimeout s.reliableDataInTransit with
  | none => none
  | some (moved, kept, earliestTimeout, inTransit) =>
    some { s with
      outgoingReliableCommands := moved ++ s.outgoingReliableCommands
      sentReliableCommands := kept
      earliestTimeout
      reliableDataInTransit := inTransit }

/-! ## Acknowledgements -/

/-- The command an acknowledgement is for. -/
def answers (number channelID : Nat) (o : OutgoingCommand β) : Bool :=
  o.reliableSequenceNumber == number && o.channelID == channelID

/-- A window counts one command less. -/
def OutgoingChannel.release (c : OutgoingChannel) (window : Nat) : OutgoingChannel :=
  if 0 < c.reliableWindows window then
    { c with
      reliableWindows := Function.update c.reliableWindows window (c.reliableWindows window - 1)
      usedReliableWindows :=
        if c.reliableWindows window - 1 = 0 then
          c.usedReliableWindows &&& ((U16 - 1) ^^^ 1 <<< window)
        else c.usedReliableWindows }
  else c

/-- The window of an acknowledged command is told. -/
def releaseWindow (s : Sender β) (number channelID : Nat) : Nat → OutgoingChannel :=
  Function.update s.channels channelID
    ((s.channels channelID).release (number / RELIABLE_WINDOW_SIZE))

/-- `enet_protocol_remove_sent_reliable_command`. -/
def removeSentReliableCommand (s : Sender β) (number channelID : Nat) : Sender β :=
  match s.sentReliableCommands.find? (answers number channelID) with
  | some o =>
    { s with
      channels := releaseWindow s number channelID
      sentReliableCommands := s.sentReliableCommands.eraseP (answers number channelID)
      reliableDataInTransit := (s.reliableDataInTransit + (U32 - o.fragmentLength)) % U32 }
  | none =>
    -- the loop ends at a command that has not been sent
    match (s.outgoingReliableCommands.takeWhile (decide <| 1 ≤ ·.sendAttempts)).find?
        (answers number channelID) with
    | some _ =>
      { s with
        channels := releaseWindow s number channelID
        outgoingReliableCommands :=
          s.outgoingReliableCommands.eraseP (answers number channelID) }
    | none => s

end Enet

end Zuckerserv

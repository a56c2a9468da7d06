import Mathlib.Data.List.DropRight
import Mathlib.Algebra.Group.Nat.Defs
import Mathlib.Algebra.GroupWithZero.Nat
import Mathlib.Algebra.Ring.Nat

/-!
# The receiving end of a reliable channel

Reliable commands carry 16 bit numbers. A channel takes those of the next seven windows of
4096, keeps them in order until their turn comes, and puts the fragments of a packet together.

* `queueIncomingCommand`, `dispatchIncomingReliableCommands` — the queue of a channel.
* `handleSendReliable`, `handleSendFragment` — the two reliable commands.
* `queueAcknowledgement` — whether a command is acknowledged.
* `receive` — one command, with the acknowledgement it gets.
-/

namespace Zuckerserv

namespace Enet

/-- `ENET_PEER_RELIABLE_WINDOWS`. -/
abbrev RELIABLE_WINDOWS : Nat := 16

/-- `ENET_PEER_RELIABLE_WINDOW_SIZE`. -/
abbrev RELIABLE_WINDOW_SIZE : Nat := 0x1000

/-- `ENET_PEER_FREE_RELIABLE_WINDOWS`. -/
abbrev FREE_RELIABLE_WINDOWS : Nat := 8

/-- `ENET_PROTOCOL_MAXIMUM_FRAGMENT_COUNT`. -/
abbrev MAXIMUM_FRAGMENT_COUNT : Nat := 1024 * 1024

/-- The numbers are of type `enet_uint16`. -/
abbrev U16 : Nat := 0x10000

/-- `ENetPeerState`. -/
inductive PeerState
  | disconnected | connecting | acknowledgingConnect | connectionPending | connectionSucceeded
  | connected | disconnectLater | disconnecting | acknowledgingDisconnect | zombie
  deriving DecidableEq, Repr

/-- What a reliable command carries after its header. -/
inductive Body
  | sendReliable (data : List UInt8)
  | sendFragment (startSequenceNumber fragmentCount fragmentNumber totalLength fragmentOffset : Nat)
      (data : List UInt8)
  deriving DecidableEq, Repr

/-- `ENetProtocol`, the reliable commands of one channel, in host byte order. -/
structure Command where
  reliableSequenceNumber : Nat
  body : Body
  deriving DecidableEq, Repr

/-- `ENetIncomingCommand`. -/
structure Incoming where
  reliableSequenceNumber : Nat
  /-- The command is an `ENET_PROTOCOL_COMMAND_SEND_FRAGMENT`. -/
  sendFragment : Bool
  fragmentCount : Nat
  fragmentsRemaining : Nat
  /-- The bits of `fragments`, one for each fragment. -/
  fragments : List Bool
  /-- `packet->data`. -/
  data : List UInt8
  deriving DecidableEq, Repr

/-- The limits of the host, and what fresh memory holds. -/
structure Host where
  maximumPacketSize : Nat
  unset : UInt8

/-- The receiving end of a channel. -/
structure Receiver where
  state : PeerState
  incomingReliableSequenceNumber : Nat
  incomingReliableCommands : List Incoming
  /-- The reliable commands of this channel in the list `dispatchedCommands` of the peer. -/
  dispatchedCommands : List Incoming
  deriving DecidableEq, Repr

/-- The window of a number as seen from the number `current`. -/
def reliableWindow (number current : Nat) : Nat :=
  number / RELIABLE_WINDOW_SIZE + if number < current then RELIABLE_WINDOWS else 0

/-- The test in front of every queue: the window is not one of those that are taken. -/
def outsideWindows (number current : Nat) : Prop :=
  reliableWindow number current < current / RELIABLE_WINDOW_SIZE ∨
    current / RELIABLE_WINDOW_SIZE + FREE_RELIABLE_WINDOWS - 1 ≤ reliableWindow number current

instance (number current : Nat) : Decidable (outsideWindows number current) :=
  inferInstanceAs (Decidable (_ ∨ _))

/-- The loops over `incomingReliableCommands` run from its end; they go on past a command that
is behind the number. -/
def passes (number current : Nat) (c : Incoming) : Bool :=
  if current ≤ number ∧ c.reliableSequenceNumber < current then true
  else if number < current ∧ current ≤ c.reliableSequenceNumber then false
  else decide (number < c.reliableSequenceNumber)

/-- The commands the loop has not passed; it stopped at the last of them. -/
def before (number current : Nat) (queue : List Incoming) : List Incoming :=
  queue.rdropWhile (passes number current)

/-- The commands the loop has passed. -/
def after (number current : Nat) (queue : List Incoming) : List Incoming :=
  queue.rtakeWhile (passes number current)

/-- The command of that number, if the loop stopped at it. -/
def found (number current : Nat) (queue : List Incoming) : Option Incoming :=
  (before number current queue).getLast?.filter (·.reliableSequenceNumber == number)

/-- The loop of `enet_peer_dispatch_incoming_reliable_commands`: the number it ends with, the
commands it walked over and those that are left. -/
def dispatchLoop : Nat → List Incoming → Nat × List Incoming × List Incoming
  | current, [] => (current, [], [])
  | current, c :: queue =>
    if 0 < c.fragmentsRemaining ∨ c.reliableSequenceNumber ≠ (current + 1) % U16 then
      (current, [], c :: queue)
    else
      let current := if 0 < c.fragmentCount then
          (c.reliableSequenceNumber + (c.fragmentCount - 1)) % U16
        else c.reliableSequenceNumber
      let (current, moved, rest) := dispatchLoop current queue
      (current, c :: moved, rest)

/-- `enet_peer_dispatch_incoming_reliable_commands`. -/
def dispatchIncomingReliableCommands (r : Receiver) : Receiver :=
  let (current, moved, rest) :=
    dispatchLoop r.incomingReliableSequenceNumber r.incomingReliableCommands
  { r with
    incomingReliableSequenceNumber := current
    incomingReliableCommands := rest
    dispatchedCommands := r.dispatchedCommands ++ moved }

/-- What `enet_peer_queue_incoming_command` returns: `NULL`, the dummy command, or the new
command, which has `behind` commands behind it in the queue. -/
inductive Queued
  | notifyError
  | dummyCommand
  | command (r : Receiver) (behind : Nat)

/-- The label `discardCommand`. -/
def discardCommand (fragmentCount : Nat) : Queued :=
  if 0 < fragmentCount then .notifyError else .dummyCommand

/-- `enet_peer_queue_incoming_command` for the two reliable commands. `full` says that
`totalWaitingData` has reached the limit of the host. -/
def queueIncomingCommand (full : Bool) (r : Receiver) (number : Nat) (sendFragment : Bool)
    (data : List UInt8) (fragmentCount : Nat) : Queued :=
  let current := r.incomingReliableSequenceNumber
  if r.state = .disconnectLater then discardCommand fragmentCount
  else if outsideWindows number current then discardCommand fragmentCount
  else if number = current then discardCommand fragmentCount
  else if (found number current r.incomingReliableCommands).isSome then
    discardCommand fragmentCount
  else if full then .notifyError
  else if MAXIMUM_FRAGMENT_COUNT < fragmentCount then .notifyError
  else
    let incomingCommand : Incoming :=
      { reliableSequenceNumber := number, sendFragment, fragmentCount
        fragmentsRemaining := fragmentCount
        fragments := List.replicate fragmentCount false
        data }
    let later := after number current r.incomingReliableCommands
    .command
      (dispatchIncomingReliableCommands { r with
        incomingReliableCommands :=
          before number current r.incomingReliableCommands ++ incomingCommand :: later })
      later.length

/-- The peer takes data: it is connected, or about to disconnect. -/
def takesData (r : Receiver) : Prop := r.state = .connected ∨ r.state = .disconnectLater

instance (r : Receiver) : Decidable (takesData r) := inferInstanceAs (Decidable (_ ∨ _))

/-- `enet_protocol_handle_send_reliable`; `none` is the return value `-1`. -/
def handleSendReliable (host : Host) (full : Bool) (r : Receiver) (number : Nat)
    (data : List UInt8) : Option Receiver :=
  if ¬ takesData r then none
  else if host.maximumPacketSize < data.length then none
  else match queueIncomingCommand full r number false data 0 with
    | .notifyError => none
    | .dummyCommand => some r
    | .command r _ => some r

/-- Fragment `fragmentNumber` is written into its packet, unless it has been before. -/
def writeFragment (fragmentNumber fragmentOffset : Nat) (data : List UInt8) (c : Incoming) :
    Incoming :=
  { c with
    fragmentsRemaining := c.fragmentsRemaining - 1
    fragments := c.fragments.set fragmentNumber true
    data :=
      let data := data.take (c.data.length - fragmentOffset)
      c.data.take fragmentOffset ++ data ++ c.data.drop (fragmentOffset + data.length) }

/-- The command with `behind` others behind it. -/
def fromBack (queue : List Incoming) (behind : Nat) : Option Incoming := queue.reverse[behind]?

/-- The same place written to. -/
def modifyBack (queue : List Incoming) (behind : Nat) (f : Incoming → Incoming) : List Incoming :=
  (queue.reverse.modify behind f).reverse

/-- The end of `enet_protocol_handle_send_fragment`: `startCommand` is known. -/
def addFragment (r : Receiver) (behind fragmentNumber fragmentOffset : Nat) (data : List UInt8) :
    Receiver :=
  match fromBack r.incomingReliableCommands behind with
  | none => r
  | some startCommand =>
    if startCommand.fragments[fragmentNumber]? = some true then r
    else
      let r := { r with
        incomingReliableCommands := modifyBack r.incomingReliableCommands behind
          (writeFragment fragmentNumber fragmentOffset data) }
      if startCommand.fragmentsRemaining - 1 = 0 then dispatchIncomingReliableCommands r else r

/-- `enet_protocol_handle_send_fragment`; `none` is the return value `-1`. -/
def handleSendFragment (host : Host) (full : Bool) (r : Receiver)
    (startSequenceNumber fragmentCount fragmentNumber totalLength fragmentOffset : Nat)
    (data : List UInt8) : Option Receiver :=
  let current := r.incomingReliableSequenceNumber
  if ¬ takesData r then none
  else if host.maximumPacketSize < data.length then none
  else if outsideWindows startSequenceNumber current then some r
  else if MAXIMUM_FRAGMENT_COUNT < fragmentCount ∨ fragmentCount ≤ fragmentNumber ∨
      host.maximumPacketSize < totalLength ∨ totalLength ≤ fragmentOffset ∨
      totalLength - fragmentOffset < data.length then none
  else match found startSequenceNumber current r.incomingReliableCommands with
    | some c =>
      if c.sendFragment = false ∨ totalLength ≠ c.data.length ∨ fragmentCount ≠ c.fragmentCount then
        none
      else some (addFragment r
        (after startSequenceNumber current r.incomingReliableCommands).length
        fragmentNumber fragmentOffset data)
    | none =>
      match queueIncomingCommand full r startSequenceNumber true
          (List.replicate totalLength host.unset) fragmentCount with
      | .notifyError => none
      | .dummyCommand => none
      | .command r behind => some (addFragment r behind fragmentNumber fragmentOffset data)

/-- `enet_peer_queue_acknowledgement`: whether the command is acknowledged. -/
def queueAcknowledgement (r : Receiver) (number : Nat) : Bool :=
  let window := reliableWindow number r.incomingReliableSequenceNumber
  let current := r.incomingReliableSequenceNumber / RELIABLE_WINDOW_SIZE
  !(decide (current + FREE_RELIABLE_WINDOWS - 1 ≤ window) &&
    decide (window ≤ current + FREE_RELIABLE_WINDOWS))

/-- The handler of a command in `enet_protocol_handle_incoming_commands`. -/
def handleCommand (host : Host) (full : Bool) (r : Receiver) (c : Command) : Option Receiver :=
  match c.body with
  | .sendReliable data => handleSendReliable host full r c.reliableSequenceNumber data
  | .sendFragment startSequenceNumber fragmentCount fragmentNumber totalLength fragmentOffset
      data =>
    handleSendFragment host full r startSequenceNumber fragmentCount fragmentNumber totalLength
      fragmentOffset data

/-- One command in `enet_protocol_handle_incoming_commands`: the receiver after it, and whether
it is acknowledged. -/
def receive (host : Host) (full : Bool) (r : Receiver) (c : Command) : Receiver × Bool :=
  match handleCommand host full r c with
  | none => (r, false)
  | some r => (r, queueAcknowledgement r c.reliableSequenceNumber)

end Enet

end Zuckerserv

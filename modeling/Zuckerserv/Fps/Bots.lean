import Mathlib.Logic.Function.Basic
import Mathlib.Data.Int.Basic

/-!
# Bots and their owners

The server side of the bots (`fpsgame/aiman.h`): each bot is run by a human client. The bot has
the number of its owner, and the owner has a list of its bots.

* `Bot`, `Human`, `Aiman` — bots, clients, and the server.
* `findaiclient`, `addai`, `deleteai`, `shiftai`, `removeai`, `reassignai`, `clearai` — the code.
* `Action`, `step` — what happens to the server.
-/

namespace Zuckerserv

/-- Where a bot is kept in memory. -/
abbrev Aiman.Address := Nat

/-- A client number. -/
abbrev Aiman.Cn := Nat

/-- The `clientinfo` of a bot. -/
structure Aiman.Bot where
  /-- `none` for -1. -/
  ownernum : Option Aiman.Cn
  aireinit : Int
  deriving DecidableEq

/-- The `clientinfo` of a client that is no bot. -/
structure Aiman.Human where
  spectator : Bool
  islocal : Bool
  privilege : Nat
  warned : Bool
  spy : Bool
  bots : List Aiman.Address
  deriving DecidableEq

/-- The clients and the bots. -/
structure Aiman where
  /-- `bots`; `none` for `NULL`. -/
  bots : List (Option Aiman.Address)
  /-- What is kept at an address. -/
  heap : Aiman.Address → Aiman.Bot
  /-- The next address that is given out. -/
  fresh : Aiman.Address
  /-- `clients`, without the bots. -/
  clients : List Aiman.Cn
  /-- `getclientinfo`, also for clients that are not in the game yet. -/
  info : Aiman.Cn → Option Aiman.Human

namespace Aiman

/-- `MAXBOTS`. -/
def MAXBOTS : Int := 32

/-- `void removeobj(const T &o)`. -/
def removeobj (l : List Address) (o : Address) : List Address := l.filter (· ≠ o)

/-- `bool validaiclient(clientinfo *ci)`, for a client that is no bot. -/
def Human.validaiclient (ci : Human) : Bool :=
  (¬ ci.spectator ∨ ci.islocal ∨ (ci.privilege ≠ 0 ∧ ¬ ci.warned)) ∧ ¬ ci.spy

/-! ## The code -/

/-- The list of bots of a client. -/
def botsOf (s : Aiman) (o : Cn) : List Address := ((s.info o).map Human.bots).getD []

/-- The client may run bots. -/
def valid (s : Aiman) (o : Cn) : Bool := (s.info o).any Human.validaiclient

/-- The list of bots of a client changes, if there is such a client. -/
def modifyBots (s : Aiman) (o : Cn) (f : List Address → List Address) : Aiman :=
  { s with info := Function.update s.info o ((s.info o).map fun ci => { ci with bots := f ci.bots }) }

/-- The bot at an address changes. -/
def setBot (s : Aiman) (a : Address) (b : Bot) : Aiman := { s with heap := Function.update s.heap a b }

/-- The owner of the bot forgets it. -/
def unlist (s : Aiman) (a : Address) : Aiman :=
  match (s.heap a).ownernum with
  | none => s
  | some o => s.modifyBots o (removeobj · a)

/-- The owner of the bot, if it has one, gets it in its list. -/
def enlist (s : Aiman) (owner : Option Cn) (a : Address) : Aiman :=
  match owner with
  | none => s
  | some o => s.modifyBots o (· ++ [a])

/-- The first of the clients that may run bots with the best number of bots. -/
def best (s : Aiman) (better : Nat → Nat → Bool) (exclude : Option Cn) : Option Cn :=
  s.clients.foldl (fun least cn =>
    if ¬ s.valid cn ∨ some cn = exclude then least
    else match least with
      | none => some cn
      | some l => if better (s.botsOf cn).length (s.botsOf l).length then some cn else least) none

/-- `clientinfo *findaiclient(clientinfo *exclude)`. -/
def findaiclient (s : Aiman) (exclude : Option Cn) : Option Cn :=
  s.best (fun n least => n < least) exclude

/-- The slot is free, or its bot is going to be removed. -/
def vacant (s : Aiman) (b : Option Address) : Bool := b.all fun a => (s.heap a).ownernum = none

/-- The first slot that is vacant; one behind the last if none is. -/
def slot (s : Aiman) : Nat := s.bots.findIdx s.vacant

/-- There is room for another bot. -/
def room (s : Aiman) (limit : Int) : Prop :=
  (s.bots.countP fun b => ¬ s.vacant b : Nat) < if limit ≥ 0 then min limit MAXBOTS else MAXBOTS

instance (s : Aiman) (limit : Int) : Decidable (s.room limit) := inferInstanceAs (Decidable (_ < _))

/-- `clientinfo *addai(int skill, int limit)`. -/
def addai (s : Aiman) (limit : Int) : Aiman :=
  if ¬ s.room limit then s
  else
    let owner := s.findaiclient none
    match (s.bots[s.slot]?).join with
    -- reuse a slot that was going to be removed
    | some a => s.setBot a ⟨owner, 2⟩
    | none =>
      let ci := s.fresh
      let s := { s with
        bots := if s.slot < s.bots.length then s.bots.set s.slot (some ci) else s.bots ++ [some ci]
        heap := Function.update s.heap ci ⟨owner, 2⟩
        fresh := ci + 1 }
      s.enlist owner ci

/-- `void deleteai(clientinfo *ci)`, for the bot in slot `cn`. -/
def deletebot (s : Aiman) (cn : Nat) : Aiman :=
  match (s.bots[cn]?).join with
  | none => s
  | some a => { s.unlist a with bots := s.bots.set cn none }

/-- `bool deleteai()`: the last bot that has an owner. -/
def deleteai (s : Aiman) : Aiman :=
  match (List.range s.bots.length).reverse.find? fun cn =>
      ((s.bots[cn]?).join).any fun a => (s.heap a).ownernum.isSome with
  | none => s
  | some cn => s.deletebot cn

/-- `void reinitai(clientinfo *ci)`, for the bot in slot `cn`. -/
def reinitai (s : Aiman) (cn : Nat) : Aiman :=
  match (s.bots[cn]?).join with
  | none => s
  | some a =>
    if (s.heap a).ownernum = none then s.deletebot cn
    else if (s.heap a).aireinit ≥ 1 then s.setBot a { s.heap a with aireinit := 0 }
    else s

/-- `void shiftai(clientinfo *ci, clientinfo *owner)`, for the bot at an address. -/
def shiftai (s : Aiman) (a : Address) (owner : Option Cn) : Aiman :=
  let s := s.unlist a
  match owner with
  | none => s.setBot a ⟨none, 0⟩
  | some o => (s.setBot a ⟨some o, 2⟩).enlist owner a

/-- The bot at the index `i` of the list of a client goes to another one. -/
def shiftaway (cn : Cn) (s : Aiman) (i : Nat) : Aiman :=
  match (s.botsOf cn)[i]? with
  | none => s
  | some a => s.shiftai a (s.findaiclient (some cn))

/-- `void removeai(clientinfo *ci)`. -/
def removeai (s : Aiman) (cn : Cn) : Aiman :=
  (List.range (s.botsOf cn).length).reverse.foldl (shiftaway cn) s

/-- `bool reassignai()`. -/
def reassignai (s : Aiman) : Aiman :=
  match s.best (fun n most => n > most) none, s.best (fun n least => n < least) none with
  | some hi, some lo =>
    if (s.botsOf hi).length - (s.botsOf lo).length > 1 then
      match (s.botsOf hi).getLast? with
      | none => s
      | some a => s.shiftai a (some lo)
    else s
  | _, _ => s

/-- `void clearai()`. -/
def clearai (s : Aiman) : Aiman := (List.range s.bots.length).reverse.foldl deletebot s

/-- `clientdisconnect`. -/
def disconnect (s : Aiman) (cn : Cn) : Aiman :=
  let s := if cn ∈ s.clients then { s with clients := removeobj s.clients cn }.removeai cn else s
  { s with info := Function.update s.info cn none }

/-! ## What happens -/

/-- What happens to the server. -/
inductive Action
  | addai (limit : Int)
  | deleteai
  /-- `deleteai` for the bot in a slot. -/
  | deletebot (cn : Nat)
  | reinitai (cn : Nat)
  /-- `shiftai` for the bot in a slot. -/
  | shiftai (cn : Nat) (owner : Option Cn)
  | removeai (cn : Cn)
  | reassignai
  | clearai
  /-- A client comes to the server. -/
  | arrive (cn : Cn) (ci : Human)
  /-- `connected`: it gets into the game. -/
  | connect (cn : Cn)
  | disconnect (cn : Cn)
  /-- A client changes in other ways: it becomes a spectator, gets a privilege, a warning. -/
  | change (cn : Cn) (ci : Human)

/-- One action. A bot is only given to clients that are in the game. -/
def step (s : Aiman) : Action → Aiman
  | .addai limit => s.addai limit
  | .deleteai => s.deleteai
  | .deletebot cn => s.deletebot cn
  | .reinitai cn => s.reinitai cn
  | .shiftai cn owner =>
    match (s.bots[cn]?).join with
    | none => s
    | some a => if owner.all (· ∈ s.clients) then s.shiftai a owner else s
  | .removeai cn => s.removeai cn
  | .reassignai => s.reassignai
  | .clearai => s.clearai
  | .arrive cn ci =>
    if s.info cn = none then { s with info := Function.update s.info cn (some { ci with bots := [] }) }
    else s
  | .connect cn =>
    if cn ∈ s.clients ∨ s.info cn = none then s else { s with clients := s.clients ++ [cn] }
  | .disconnect cn => s.disconnect cn
  | .change cn ci => { s with
    info := Function.update s.info cn ((s.info cn).map fun old => { ci with bots := old.bots }) }

end Aiman

end Zuckerserv

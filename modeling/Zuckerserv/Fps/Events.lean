import Zuckerserv.Fps.Combat

/-!
# The event queue

The events of a client wait in a queue until the time of the game has reached theirs:
`clientinfo::geteventmillis` and `addevent`, `flush`, `flushevents`, `processevents` and
`cleartimedevents`, and what the messages and commands around them do to a client.

* `geteventmillis`, `addevent` — an event gets its time and is queued.
* `flushevents`, `processevents` — the events that are due are processed.
* `cleartimedevents`, `tryRespawn`, `spawn` — from one life to the next.
* `Action`, `step` — what happens to the server from outside.
-/

namespace Zuckerserv

namespace Game

open IntIndex

/-! ## Queueing -/

/-- `int geteventmillis(int servmillis, int clientmillis)`. -/
def ClientInfo.geteventmillis (ci : ClientInfo) (servmillis clientmillis : Int32) :
    Int32 × ClientInfo :=
  if ci.timesync = false ∨ ci.events = [] ∧ ci.state.waitexpired servmillis then
    (servmillis, { ci with timesync := true, gameoffset := servmillis - clientmillis })
  else (ci.gameoffset + clientmillis, ci)

/-- `void addevent(gameevent *e)`. -/
def ClientInfo.addevent (ci : ClientInfo) (e : Event) : ClientInfo :=
  if ci.state.state = .SPECTATOR ∨ ci.events.length > 100 then ci
  else { ci with events := ci.events ++ [e] }

/-- A timed event, sent with the client's time `clientmillis`, is queued. -/
def Server.addtimed (s : Server) (c : Handle) (clientmillis : Int32) (e : Int32 → Event) : Server :=
  s.modify c fun ci =>
    let (millis, ci) := ci.geteventmillis s.gamemillis clientmillis
    ci.addevent (e millis)

/-! ## Processing -/

/-- `bool pickup(int i, int sender)`. -/
def pickup (i sender : Int32) : Prog Server Effect := .choose fun s =>
  match item s.sents i, s.getinfo sender with
  | some e, some c =>
    if s.timed ∧ s.gamemillis ≥ s.gamelimit ∨ ¬ e.spawned ∨
        (¬ (s.info c).islocal ∧ ¬ (s.info c).state.canpickup e.type) then .skip
    else .act (fun s =>
      { s with sents := s.sents.set i.toInt.toNat { e with spawned := false } }.modifyState c
        fun gs => gs.pickup e.type) [.supply c]
  | _, _ => .skip

/-- `void pickupevent::process(clientinfo *ci)`. -/
def processPickup (c : Handle) (ent : Int32) : Prog Server Effect := .choose fun s =>
  if s.mp ∧ ¬ (s.info c).state.isalive s.gamemillis then .skip
  else pickup ent (s.info c).clientnum

/-- The time of a timed event. -/
def Event.millis? : Event → Option Int32
  | .shot e => some e.millis
  | .explode e => some e.millis
  | .suicide => none
  | .pickup _ => none

/-- `process`, for every kind of event. -/
def Event.process (env : Env) (c : Handle) : Event → Prog Server Effect
  | .shot e => e.process env c
  | .explode e => e.process env c
  | .suicide => Game.suicide env c
  | .pickup ent => processPickup c ent

/-- `flush` returns true: the event need not wait any longer. -/
def Event.Due (e : Event) (fmillis : Int32) : Prop := ∀ millis ∈ e.millis?, ¬ millis > fmillis

instance (e : Event) (fmillis : Int32) : Decidable (e.Due fmillis) :=
  Option.decidableForallMem e.millis?

/-- What `gameevent::flush` and `timedevent::flush` do when the event is due: a timed event
that is older than the last one is dropped. -/
def Event.flush (env : Env) (c : Handle) (e : Event) : Prog Server Effect :=
  match e.millis? with
  | none => e.process env c
  | some millis => .choose fun s =>
    if millis ≥ (s.info c).lastevent then
      .seq (.act (·.modify c fun ci => { ci with lastevent := millis })
        [.timed c millis s.gamemillis]) (e.process env c)
    else .skip

/-- `void clearevent(clientinfo *ci)`. -/
def clearevent (c : Handle) : Prog Server Effect :=
  .modify fun s => s.modify c fun ci => { ci with events := ci.events.tail }

/-- The loop of `flushevents`; no more than `n` events are taken. -/
def flushLoop (env : Env) (c : Handle) (fmillis : Int32) : Nat → Prog Server Effect
  | 0 => .skip
  | n + 1 => .choose fun s =>
    match (s.info c).events with
    | [] => .skip
    | e :: _ =>
      if e.Due fmillis then .seq (e.flush env c) (.seq (clearevent c) (flushLoop env c fmillis n))
      else .skip

/-- `void flushevents(clientinfo *ci, int millis)`: no event is added meanwhile. -/
def flushevents (env : Env) (c : Handle) (millis : Int32) : Prog Server Effect := .choose fun s =>
  flushLoop env c millis (s.info c).events.length

/-- `void processevents()`. -/
def processevents (env : Env) (curtime : Int32) : Prog Server Effect := .choose fun s =>
  .each (fun c => .seq
    (.modify fun s => s.modifyState c fun gs =>
      if curtime > 0 ∧ gs.quadmillis ≠ 0 then
        { gs with quadmillis := max (gs.quadmillis - curtime) 0 }
      else gs)
    (flushevents env c s.gamemillis)) s.clients

/-! ## From one life to the next -/

/-- `bool keepable() const`. -/
def Event.keepable : Event → Bool
  | .explode _ => true
  | _ => false

/-- The state of the loop in `cleartimedevents`. -/
structure Clearing where
  events : List Event
  i : Nat
  keep : Nat
  /-- The events that have been deleted. -/
  deleted : List Event

/-- One iteration: the events between the last one that is kept and a keepable one go. -/
def Clearing.next (w : Clearing) (e : Event) : Clearing :=
  if e.keepable then
    let w := if w.keep < w.i then
        { w with
          deleted := w.deleted ++ (w.events.drop w.keep).take (w.i - w.keep)
          events := w.events.take w.keep ++ w.events.drop w.i
          i := w.keep }
      else w
    { w with i := w.i + 1, keep := w.i + 1 }
  else { w with i := w.i + 1 }

/-- The loop `loopv(ci->events)`; no more than `n` iterations. -/
def Clearing.loop : Nat → Clearing → Clearing
  | 0, w => w
  | n + 1, w =>
    match w.events[w.i]? with
    | none => w
    | some e => loop n (w.next e)

/-- The events that `cleartimedevents` leaves, and those it deletes. -/
def clearing (events : List Event) : List Event × List Event :=
  let w := Clearing.loop events.length ⟨events, 0, 0, []⟩
  (w.events.take w.keep, w.deleted ++ (w.events.drop w.keep).reverse)

/-- `void cleartimedevents(clientinfo *ci)`. -/
def cleartimedevents (ci : ClientInfo) : ClientInfo :=
  { ci with events := (clearing ci.events).1, timesync := false }

/-- `void sendspawn(clientinfo *ci)`, the loadout being `l`. -/
def sendspawn (env : Env) (c : Handle) (l : GameState.Loadout) : Prog Server Effect :=
  .choose fun s =>
    if env.mayspawn s c then
      .act (·.modifyState c fun gs => { gs.spawnstate l with lastspawn := s.gamemillis })
        [.respawn c]
    else .skip

/-- `void try_respawn(clientinfo * ci, clientinfo * cq)`. -/
def tryRespawn (env : Env) (c : Handle) (l : GameState.Loadout) : Prog Server Effect :=
  .choose fun s =>
    let gs := (s.info c).state
    let clear := .seq (.modify fun s => s.modify c cleartimedevents) (sendspawn env c l)
    if gs.state ≠ .DEAD ∨ gs.lastspawn ≥ 0 ∨ ¬ env.canspawn s c then .skip
    else if gs.deadflush = 0 then clear
    else if env.eventRespawnrequest s c then .skip
    else .seq (flushevents env c gs.deadflush)
      (.seq (.act (·.modifyState c GameState.respawn) [.respawn c]) clear)

/-- `void setspectator(clientinfo * spinfo, bool val, bool broadcast)`. -/
def setspectator (c : Handle) (val : Bool) : Prog Server Effect := .choose fun s =>
  let ci := s.info c
  if ¬ ci.connected ∨ ci.isBot ∨ ci.spy then .skip
  else if val ∧ ci.state.state ≠ .SPECTATOR then
    .modify fun s => s.modifyState c fun gs => { gs with state := .SPECTATOR }
  else if ¬ val ∧ ci.state.state = .SPECTATOR then
    .act (·.modifyState c fun gs => GameState.respawn { gs with state := .DEAD }) [.respawn c]
  else .skip

/-- The case `N_SPAWN`: `c` is the sender, `cq` the client that spawns. -/
def spawn (c cq : Handle) (ls gunselect : Int32) : Prog Server Effect := .choose fun s =>
  let gs := (s.info cq).state
  if gunselect < 0 ∨ gunselect > 6 then .skip
  else if (gs.state ≠ .ALIVE ∧ gs.state ≠ .DEAD ∧ gs.state ≠ .EDITING) ∨ ls ≠ gs.lifesequence ∨
      gs.lastspawn < 0 then .skip
  else if (s.info c).spy then
    .seq (.modify fun s => s.modify c fun ci => { ci with
      spy := false, state := { ci.state with state := .DEAD } })
    (.seq (setspectator c true) (.modify fun s => s.modify c fun ci => { ci with spy := true }))
  else .modify fun s => s.modifyState cq fun gs => { gs with
    lastspawn := -1, state := .ALIVE, gunselect := gunselect, lastdeath := 0 }

/-- The case `N_EDITMODE`. -/
def editmode (c : Handle) (val : Bool) : Prog Server Effect := .choose fun s =>
  let ci := s.info c
  if ¬ ci.islocal ∧ ¬ s.edit then .skip
  else if val then
    if ci.state.state ≠ .ALIVE ∧ ci.state.state ≠ .DEAD then .skip
    else .modify fun s => s.modify c fun ci => { ci with
      events := []
      state := { ci.state with
        editstate := ci.state.state, state := .EDITING, rockets := .reset, grenades := .reset } }
  else if ci.state.state ≠ .EDITING then .skip
  else .modify fun s => s.modifyState c fun gs => { gs with state := gs.editstate }

/-- `MAXSPIES`. -/
def MAXSPIES : Nat := 5

/-- `void set_spy(int cn, bool val)`, for a player. -/
def setSpy (c : Handle) (val : Bool) : Prog Server Effect := .choose fun s =>
  if (s.info c).spy = val then .skip
  else if val then
    if s.spies.length ≥ MAXSPIES then .skip
    else .seq (if (s.info c).connected then setspectator c true else .skip)
      (.modify fun s => { s.modify c fun ci => { ci with
        spy := true, clientnum := s.spycn + Int32.ofNat s.spies.length } with
          spies := s.spies ++ [c] })
  else .seq
    (.modify fun s => { s.modify c fun ci => { ci with spy := false, clientnum := ci.n } with
      spies := s.spies.erase c })
    (if s.mastermode ≤ 1 then setspectator c false else .skip)

/-- `void mapchange()` of `clientinfo`. -/
def ClientInfo.mapchange (ci : ClientInfo) : ClientInfo :=
  { ci with state := ci.state.reset, events := [], timesync := false, lastevent := 0 }

/-- `void reassign()` of `clientinfo`. -/
def ClientInfo.reassign (ci : ClientInfo) : ClientInfo :=
  { ci with state := ci.state.reassign, events := [], timesync := false, lastevent := 0 }

/-- What a game mode and its length are to the events. -/
structure Mode where
  timed : Bool
  mp : Bool
  teammode : Bool
  edit : Bool
  gamelimit : Int32

/-- `void changemap(const char *s, int mode,int mins)`, `l` choosing the loadouts. -/
def changemap (env : Env) (m : Mode) (l : Handle → GameState.Loadout) : Prog Server Effect :=
  .seq (.modify fun s => { s with
    timed := m.timed, mp := m.mp, teammode := m.teammode, edit := m.edit
    gamelimit := m.gamelimit, gamemillis := 0, sents := [] })
  (.choose fun s => .each (fun c => .seq
    (.act (·.modify c ClientInfo.mapchange) [.respawn c])
    (.choose fun s => if s.mp ∧ (s.info c).state.state ≠ .SPECTATOR then sendspawn env c (l c)
      else .skip)) s.clients)

/-! ## The server -/

/-- What happens to the server. -/
inductive Action
  /-- `N_SHOOT`. -/
  | shoot (c : Handle) (id gun : Int32) (origin dest : Vec) (hits : List HitInfo)
  /-- `N_EXPLODE`. -/
  | explode (c : Handle) (cmillis gun id : Int32) (hits : List HitInfo)
  /-- `N_SUICIDE`. -/
  | suicide (c : Handle)
  /-- `N_ITEMPICKUP`. -/
  | itempickup (c : Handle) (n : Int32)
  /-- `N_TRYSPAWN`. -/
  | tryspawn (c : Handle) (l : GameState.Loadout)
  /-- `N_SPAWN`, sent by `c` for itself or for one of its bots. -/
  | spawn (c cq : Handle) (ls gunselect : Int32)
  /-- `N_EDITMODE`. -/
  | editmode (c : Handle) (val : Bool)
  /-- `N_SPECTATOR`. -/
  | spectator (c : Handle) (val : Bool)
  /-- A player enters or leaves the spy mode. -/
  | setspy (c : Handle) (val : Bool)
  /-- `player_slay`. -/
  | slay (c : Handle)
  /-- The anticheat finds that a client who plays sends no positions, or gets one again. -/
  | lagged (c : Handle) (val : Bool)
  /-- A connection is accepted. -/
  | connect (c : Handle) (l : GameState.Loadout)
  /-- A bot gets another owner. -/
  | reassign (c : Handle)
  /-- A base gives its owners ammunition, health or armour. -/
  | supply (c : Handle) (l : GameState.Loadout)
  /-- `serverupdate`. -/
  | update (curtime : Int32)
  /-- The items change: they come back in time, and in the edit mode. -/
  | items (sents : List Entity)
  | mastermode (mm : Int32)
  | changemap (m : Mode) (l : Handle → GameState.Loadout)

/-- A message is read if its sender is connected. -/
def received (c : Handle) (p : Prog Server Effect) : Prog Server Effect := .choose fun s =>
  if (s.info c).connected then p else .skip

/-- `serverupdate`, as far as events are concerned. -/
def serverupdate (env : Env) (curtime : Int32) : Prog Server Effect :=
  .seq (.modify fun s => { s with gamemillis := s.gamemillis + curtime })
    (.choose fun s =>
      if ¬ s.timed ∨ s.gamemillis < s.gamelimit then processevents env curtime else .skip)

/-- `void player_slay(int cn)`. -/
def playerSlay (c : Handle) : Prog Server Effect := .modify fun s => s.modifyState c fun gs =>
  if gs.state = .ALIVE then { gs with state := .DEAD } else gs

/-- A client is not `is_player_invisible` any more, or is: of those who play, one of the two. -/
def lagged (c : Handle) (val : Bool) : Prog Server Effect := .modify fun s => s.modifyState c fun gs =>
  if gs.state.plays then { gs with state := if val then .LAGGED else .ALIVE } else gs

/-- `welcomepacket(p, ci)`, as far as the client itself is concerned. -/
def welcomepacket (env : Env) (c : Handle) (l : GameState.Loadout) : Prog Server Effect :=
  .choose fun s =>
    if s.mp ∧ (s.info c).state.state ≠ .SPECTATOR then
      if env.canspawnConnecting s c then
        .act (·.modifyState c fun gs => { gs.spawnstate l with lastspawn := s.gamemillis })
          [.respawn c]
      else .modify (·.modifyState c fun gs => { gs with state := .DEAD })
    else .skip

/-- `connected`, as far as events are concerned: a locked server begins with spectators. -/
def connected (env : Env) (c : Handle) (l : GameState.Loadout) : Prog Server Effect :=
  .choose fun s =>
    if (s.info c).connected then .skip
    else .seq (.modify fun s => s.modify c fun ci => { ci with
        connected := true
        state := { ci.state with
          state := if s.mastermode ≥ 2 then .SPECTATOR else ci.state.state } })
      (welcomepacket env c l)

/-- What a base gives to a client: `addammo`, or health, armour and ammunition in the
regenerating capture mode. -/
def supplied (c : Handle) (l : GameState.Loadout) : Prog Server Effect :=
  .act (·.modifyState c fun gs => { gs with
    health := l.health, armour := l.armour, ammo := l.ammo }) [.supply c]

/-- The server does what it is told. -/
def step (env : Env) : Action → Prog Server Effect
  | .shoot c id gun origin dest hits => received c <| .modify fun s =>
    s.addtimed c id fun millis => .shot ⟨millis, id, gun, origin, dest, hits⟩
  | .explode c cmillis gun id hits => received c <| .modify fun s =>
    s.addtimed c cmillis fun millis => .explode ⟨millis, id, gun, hits⟩
  | .suicide c => received c <| .modify fun s => s.modify c (·.addevent .suicide)
  | .itempickup c n => received c <| .modify fun s => s.modify c (·.addevent (.pickup n))
  | .tryspawn c l => received c <| tryRespawn env c l
  | .spawn c cq ls gunselect => received c <| .choose fun s =>
    if cq = c ∨ (s.info cq).isBot then spawn c cq ls gunselect else .skip
  | .editmode c val => received c <| editmode c val
  | .spectator c val => setspectator c val
  | .setspy c val => .choose fun s => if (s.info c).isBot then .skip else setSpy c val
  | .slay c => playerSlay c
  | .lagged c val => lagged c val
  | .connect c l => connected env c l
  | .reassign c => .act (·.modify c ClientInfo.reassign) [.respawn c]
  | .supply c l => supplied c l
  | .update curtime => serverupdate env curtime
  | .items sents => .modify fun s => { s with sents := sents }
  | .mastermode mm => .modify fun s => { s with mastermode := mm }
  | .changemap m l => changemap env m l

end Game

end Zuckerserv

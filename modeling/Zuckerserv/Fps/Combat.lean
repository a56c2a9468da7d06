import Zuckerserv.Fps.GameState
import Zuckerserv.Lib.IntIndex
import Zuckerserv.Lib.Prog

/-!
# Shots, explosions and damage

The clients of the server and what their shots and explosions do to them: `dodamage`,
`suicide`, `explodeevent::process` and `shotevent::process` of `fpsgame/server.cpp`.

* `ClientInfo`, `Server` — the clients, reached through handles as through pointers, and
  the tables in which `getinfo` looks for them.
* `Env` — what lies outside: the scripts that are asked, and floating-point arithmetic.
* `dodamage`, `shotHits`, `explodeHits` — the hits of a shot and of an explosion.
* `Effect` — what can be observed when events are processed.
-/

namespace Zuckerserv

namespace Game

open IntIndex

/-- A `clientinfo *`. -/
abbrev Handle := Nat

/-- A vector, in the units in which it is sent. -/
structure Vec where
  x : Int32
  y : Int32
  z : Int32
  deriving DecidableEq

/-- `hitinfo`. -/
structure HitInfo where
  /-- The number of the client that is hit. -/
  target : Int32
  lifesequence : Int32
  rays : Int32
  /-- The distance, in units of `1/DMF`. -/
  dist : Int32
  dir : Vec
  deriving DecidableEq

/-- `shotevent`. -/
structure ShotEvent where
  millis : Int32
  id : Int32
  gun : Int32
  /-- `from`. -/
  origin : Vec
  /-- `to`. -/
  dest : Vec
  hits : List HitInfo

/-- `explodeevent`. -/
structure ExplodeEvent where
  millis : Int32
  id : Int32
  gun : Int32
  hits : List HitInfo

/-- The kinds of `gameevent`. -/
inductive Event
  | shot (e : ShotEvent)
  | explode (e : ExplodeEvent)
  | suicide
  | pickup (ent : Int32)

/-- The fields of `clientinfo` that the events use. -/
structure ClientInfo where
  /-- The number of the connection. -/
  n : Int32
  /-- The number by which the client is known: a spy has another one. -/
  clientnum : Int32
  connected : Bool
  /-- `state.aitype != AI_NONE`. -/
  isBot : Bool
  spy : Bool
  /-- A client of the process itself. -/
  islocal : Bool
  team : List UInt8
  /-- Whether `gameoffset` has been set. -/
  timesync : Bool
  gameoffset : Int32
  /-- The time of the last timed event that was processed. -/
  lastevent : Int32
  state : GameState
  events : List Event

/-- An entry of `sents`. -/
structure Entity where
  type : Int32
  spawned : Bool

/-- The server, as far as events are concerned. -/
structure Server where
  info : Handle → ClientInfo
  /-- `clients`: the connected clients and the bots. -/
  clients : List Handle
  /-- The table behind `getclientinfo`. -/
  slots : List (Option Handle)
  bots : List (Option Handle)
  spies : List Handle
  /-- The first of the numbers that spies are given. -/
  spycn : Int32
  gamemillis : Int32
  gamelimit : Int32
  /-- `m_timed`, `m_mp(gamemode)`, `m_teammode` and `m_edit`. -/
  timed : Bool
  mp : Bool
  teammode : Bool
  edit : Bool
  mastermode : Int32
  sents : List Entity
  /-- How often the scripts have been asked: their answers may change from time to time. -/
  asked : Nat

/-- A call of `dodamage`. -/
structure Call where
  target : Handle
  hit : HitInfo
  /-- The server in front of the call. -/
  before : Server

/-- What is outside the modelled code. -/
structure Env where
  /-- `event_damage`: the scripts answer whether the damage is prevented. -/
  eventDamage : Server → Handle → Handle → Int32 → Gun → Vec → Bool
  /-- `event_suicide`. -/
  eventSuicide : Server → Handle → Bool
  /-- `event_respawnrequest`. -/
  eventRespawnrequest : Server → Handle → Bool
  /-- `smode->canspawn`, and that the map of the client is known. -/
  canspawn : Server → Handle → Bool
  /-- `!smode || smode->canspawn(ci, true)`, for one who connects. -/
  canspawnConnecting : Server → Handle → Bool
  /-- `no_spawn != 1`. -/
  mayspawn : Server → Handle → Bool
  /-- `anti_cheat_enabled`. -/
  antiCheatEnabled : Bool
  /-- `(int)distance(actor->state.o, target->state.o)`. -/
  distance : Server → Handle → Handle → Int32
  /-- `from.dist(to)`. -/
  dist : Vec → Vec → Rat
  /-- `int(damage*(1-dist/EXP_DISTSCALE/exprad))`. -/
  falloff : Int32 → Int32 → Int32 → Int32

/-- What can be observed when events are processed. -/
inductive Effect
  /-- A timed event of `c` for the time `millis` is processed. -/
  | timed (c : Handle) (millis gamemillis : Int32)
  /-- A shot of `c` takes effect. -/
  | shot (c : Handle) (gun : Gun) (id millis : Int32) (calls : List Call)
  /-- An explosion of `c` takes effect. -/
  | explosion (c : Handle) (gun : Gun) (id : Int32) (calls : List Call)
  /-- The state of `c` is made anew by `respawn` or `spawnstate`. -/
  | respawn (c : Handle)
  /-- `c` is given what it has picked up. -/
  | supply (c : Handle)

/-! ## The clients -/

namespace Server

/-- Change a client. -/
def modify (s : Server) (c : Handle) (f : ClientInfo → ClientInfo) : Server :=
  { s with info := Function.update s.info c (f (s.info c)) }

/-- Change the state of a client. -/
def modifyState (s : Server) (c : Handle) (f : GameState → GameState) : Server :=
  s.modify c fun ci => { ci with state := f ci.state }

@[simp] theorem info_modify_self (s : Server) (c : Handle) (f : ClientInfo → ClientInfo) :
    (s.modify c f).info c = f (s.info c) := Function.update_self ..

theorem info_modify_of_ne (s : Server) {c d : Handle} (h : d ≠ c) (f : ClientInfo → ClientInfo) :
    (s.modify c f).info d = s.info d := Function.update_of_ne h ..

/-- `bool isteam(const char *a, const char *b)`, for the teams of two clients. -/
def isteam (s : Server) (a b : Handle) : Prop :=
  s.teammode = true ∧ (s.info a).team = (s.info b).team

instance (s : Server) (a b : Handle) : Decidable (s.isteam a b) :=
  inferInstanceAs (Decidable (_ ∧ _))

/-- `MAXCLIENTS`. -/
def MAXCLIENTS : Int32 := 128

/-- `clientinfo *getinfo(int n)`. -/
def getinfo (s : Server) (n : Int32) : Option Handle :=
  let spy := if n ≥ s.spycn then s.spies.find? fun c => (s.info c).clientnum = n else none
  match spy with
  | some c => some c
  | none =>
    if n < MAXCLIENTS then (item s.slots n).join
    else (item s.bots (n - MAXCLIENTS)).join

/-- `int fragvalue(clientinfo *victim, clientinfo *actor)`. -/
def fragvalue (s : Server) (victim actor : Handle) : Int32 :=
  if victim = actor ∨ s.isteam victim actor then -1 else 1

end Server

/-! ## Damage -/

/-- The end of `dodamage`, when nothing is left of the target's health. -/
def kill (target actor : Handle) (s : Server) : Server :=
  let s := s.modifyState target fun ts => { ts with
    deaths := ts.deaths + 1
    suicides := ts.suicides + if actor = target then 1 else 0 }
  let s := if actor ≠ target ∧ s.isteam actor target then
      s.modifyState actor fun gs => { gs with teamkills := gs.teamkills + 1 }
    else s
  let s := s.modifyState actor fun gs => { gs with frags := gs.frags + s.fragvalue target actor }
  s.modifyState target fun ts => { ts with
    state := .DEAD
    lastdeath := s.gamemillis
    deadflush := s.gamemillis + GameState.DEATHMILLIS }

/-- The damage done to others is added up. -/
def credit (target actor : Handle) (damage : Int32) (s : Server) : Server :=
  if target ≠ actor ∧ ¬ s.isteam target actor then
    s.modifyState actor fun gs => { gs with damage := gs.damage + damage }
  else s

/-- `void dodamage(clientinfo *target, clientinfo *actor, int damage, int gun, const vec
&hitpush)`. -/
def dodamage (env : Env) (target actor : Handle) (damage : Int32) (gun : Gun) (hitpush : Vec)
    (s : Server) : Server :=
  let prevented := env.eventDamage s target actor damage gun hitpush
  let s := { s with asked := s.asked + 1 }
  if prevented then s
  else if env.antiCheatEnabled ∧ env.distance s actor target > (guns gun).range + 50 then s
  else
    let s := credit target actor damage (s.modifyState target (·.dodamage damage))
    if (s.info target).state.health ≤ 0 then kill target actor s else s

/-- `void suicide(clientinfo *ci)`. -/
def suicide (env : Env) (c : Handle) : Prog Server Effect := fun s =>
  let prevented := env.eventSuicide s c
  let s := { s with asked := s.asked + 1 }
  if prevented ∨ (s.info c).state.state ≠ .ALIVE then (s, [])
  else
    (s.modifyState c fun gs => GameState.respawn { gs with
      frags := gs.frags + s.fragvalue c c
      deaths := gs.deaths + 1
      suicides := gs.suicides + 1
      state := .DEAD
      lastdeath := s.gamemillis }, [.respawn c])

/-! ## The hits of a shot -/

/-- `h.dist > range`. -/
def HitInfo.Beyond (h : HitInfo) (range : Int32) : Prop := 16 * range.toInt < h.dist.toInt

instance (h : HitInfo) (range : Int32) : Decidable (h.Beyond range) :=
  inferInstanceAs (Decidable (_ < _))

/-- The checks that a hit of a shot must pass; the client it is for. -/
def Server.shotTarget (s : Server) (gun : Gun) (h : HitInfo) : Option Handle :=
  (s.getinfo h.target).filter fun target =>
    ¬ ((s.info target).state.state ≠ .ALIVE ∨
      h.lifesequence ≠ (s.info target).state.lifesequence ∨ h.rays < 1 ∨
      h.Beyond ((guns gun).range + 1))

/-- The quad damage. -/
def quad (gs : GameState) (damage : Int32) : Int32 :=
  if gs.quadmillis ≠ 0 then damage * 4 else damage

/-- A hit that is let through: it is counted, and `dodamage` is called. -/
def hurt (env : Env) (c target : Handle) (gun : Gun) (h : HitInfo) (damage : Int32) :
    Prog Server Call := fun s =>
  let s' := s.modifyState c fun gs => { gs with hits := gs.hits + if c ≠ target then 1 else 0 }
  (dodamage env target c damage gun h.dir s', [⟨target, h, s⟩])

/-- The loop over the hits of a shot; `totalrays` is what the hits so far have used. -/
def shotHits (env : Env) (c : Handle) (gun : Gun) : Int32 → List HitInfo → Prog Server Call
  | _, [] => .skip
  | totalrays, h :: hits => .choose fun s =>
    match s.shotTarget gun h with
    | none => shotHits env c gun totalrays hits
    | some target =>
      if totalrays + h.rays > (guns gun).rays then shotHits env c gun (totalrays + h.rays) hits
      else .seq
        (hurt env c target gun h (quad (s.info c).state (h.rays * (guns gun).damage)))
        (shotHits env c gun (totalrays + h.rays) hits)

/-! ## The hits of an explosion -/

/-- The checks that a hit of an explosion must pass. -/
def Server.explodeTarget (s : Server) (gun : Gun) (h : HitInfo) : Option Handle :=
  (s.getinfo h.target).filter fun target =>
    ¬ ((s.info target).state.state ≠ .ALIVE ∨
      h.lifesequence ≠ (s.info target).state.lifesequence ∨ h.dist < 0 ∨
      h.Beyond (guns gun).exprad)

/-- The damage of an explosion. -/
def explodeDamage (env : Env) (c target : Handle) (gun : Gun) (h : HitInfo) (gs : GameState) :
    Int32 :=
  let damage := env.falloff (quad gs (guns gun).damage) h.dist (guns gun).exprad
  if target = c then damage / 2 else damage

/-- The loop over the hits of an explosion, those in front of them being `done`. -/
def explodeHits (env : Env) (c : Handle) (gun : Gun) (done : List HitInfo) :
    List HitInfo → Prog Server Call
  | [] => .skip
  | h :: hits => .choose fun s =>
    match s.explodeTarget gun h with
    | none => explodeHits env c gun (done ++ [h]) hits
    | some target =>
      -- `dup`: the number of the target has occurred before
      if done.any fun d => d.target = h.target then explodeHits env c gun (done ++ [h]) hits
      else .seq (hurt env c target gun h (explodeDamage env c target gun h (s.info c).state))
        (explodeHits env c gun (done ++ [h]) hits)

/-! ## The events themselves -/

/-- The gun of a shot, if the shot is let through. -/
def ShotEvent.allowed (env : Env) (s : Server) (c : Handle) (e : ShotEvent) : Option Gun :=
  let gs := (s.info c).state
  (Gun.ofInt e.gun).filter fun gun =>
    ¬ (¬ gs.isalive s.gamemillis ∨ e.millis - gs.lastshot < gs.gunwait ∨ gs.ammo gun ≤ 0 ∨
      ((guns gun).range ≠ 0 ∧ env.dist e.origin e.dest > (guns gun).range.toInt + 1))

/-- What a shot takes from its gun. -/
def fire (e : ShotEvent) (gun : Gun) (gs : GameState) : GameState :=
  { gs with
    ammo := if gun ≠ .FIST then Function.update gs.ammo gun (gs.ammo gun - 1) else gs.ammo
    lastshot := e.millis
    gunwait := (guns gun).attackdelay
    shotdamage := gs.shotdamage + quad gs (guns gun).damage * (guns gun).rays
    shots := gs.shots + 1 }

/-- What a shot that is let through does: a projectile, or hits. -/
def ShotEvent.shoot (env : Env) (c : Handle) (gun : Gun) (e : ShotEvent) : Prog Server Call :=
  match gun with
  | .RL => .modify fun s => s.modifyState c fun gs => { gs with rockets := gs.rockets.add e.id }
  | .GL => .modify fun s => s.modifyState c fun gs => { gs with grenades := gs.grenades.add e.id }
  | gun => shotHits env c gun 0 e.hits

/-- `void shotevent::process(clientinfo *ci)`. -/
def ShotEvent.process (env : Env) (c : Handle) (e : ShotEvent) : Prog Server Effect := fun s =>
  match e.allowed env s c with
  | none => (s, [])
  | some gun =>
    let s := s.modifyState c (fire e gun)
    let old_hits := (s.info c).state.hits
    let (s, calls) := e.shoot env c gun s
    let missed := if (s.info c).state.hits - old_hits = 0 then 1 else 0
    (s.modifyState c fun gs => { gs with misses := gs.misses + missed },
      [.shot c gun e.id e.millis calls])

/-- The projectiles of a gun without the one that explodes. -/
def GameState.explode (gs : GameState) (gun id : Int32) : Option (Gun × GameState) :=
  match Gun.ofInt gun with
  | some .RL => (gs.rockets.remove id).map fun p => (.RL, { gs with rockets := p })
  | some .GL => (gs.grenades.remove id).map fun p => (.GL, { gs with grenades := p })
  | _ => none

/-- `void explodeevent::process(clientinfo *ci)`. -/
def ExplodeEvent.process (env : Env) (c : Handle) (e : ExplodeEvent) : Prog Server Effect :=
  fun s =>
    match (s.info c).state.explode e.gun e.id with
    | none => (s, [])
    | some (gun, gs) =>
      let s := s.modifyState c fun _ => { gs with
        explosivedamage := gs.explosivedamage + quad gs (guns gun).damage }
      let (s, calls) := explodeHits env c gun [] e.hits s
      (s, [.explosion c gun e.id calls])

/-! ## A small game -/

/-- No scripts, no anticheat, and everything at one place. -/
def quiet : Env where
  eventDamage _ _ _ _ _ _ := false
  eventSuicide _ _ := false
  eventRespawnrequest _ _ := false
  canspawn _ _ := true
  canspawnConnecting _ _ := true
  mayspawn _ _ := true
  antiCheatEnabled := false
  distance _ _ _ := 0
  dist _ _ := 0
  falloff damage _ _ := damage

/-- A player of full health with 40 shots for its pistol. -/
def GameState.spawned : GameState where
  health := 100
  maxhealth := 100
  armour := 0
  armourtype := 0
  quadmillis := 0
  gunselect := 6
  gunwait := 0
  ammo := Function.update (fun _ => 0) .PISTOL 40
  state := .ALIVE
  editstate := .DEAD
  lastdeath := 0
  deadflush := 0
  lastspawn := -1
  lifesequence := 1
  lastshot := 0
  rockets := .reset
  grenades := .reset
  frags := 0
  deaths := 0
  suicides := 0
  teamkills := 0
  shotdamage := 0
  damage := 0
  explosivedamage := 0
  hits := 0
  misses := 0
  shots := 0

/-- Two players in a game that has run for ten seconds. -/
def duel : Server where
  info c := ⟨Int32.ofNat c, Int32.ofNat c, true, false, false, false, [], true, 0, 0, .spawned, []⟩
  clients := [0, 1]
  slots := [some 0, some 1]
  bots := []
  spies := []
  spycn := 1000
  gamemillis := 10000
  gamelimit := 600000
  timed := true
  mp := true
  teammode := false
  edit := false
  mastermode := 0
  sents := []
  asked := 0

end Game

end Zuckerserv

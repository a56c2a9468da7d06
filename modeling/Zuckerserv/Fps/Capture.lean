import Zuckerserv.Fps.Ctf

/-!
# The capture mode

`captureservmode` of `fpsgame/capture.h`: bases that belong to the team whose clients have been
near them for long enough. Who is near is counted as clients come and go.

* `Base`, `Client`, `Capture` — bases, clients and the mode.
* `Base.enter`, `Base.leave`, `Base.steal`, `Base.occupy` — the code of a base.
* `movebases`, `leavebases`, `enterbases`, `update` — the code of the mode.
* `Action`, `step` — what happens to the mode from outside.
-/

namespace Zuckerserv

open Game (PlayState Vec)

/-- The place of a client; `none` for the place, far from everything, of one that has respawned
and has not been heard of since. -/
abbrev Capture.Place := Option Game.Vec

/-- `baseinfo`, without its ammunition and points; `[]` for no team. -/
structure Capture.Base where
  /-- `insidebase`. -/
  insidebase : Game.Vec → Bool
  /-- `valid()`. -/
  valid : Bool
  owner : Ctf.Name
  enemy : Ctf.Name
  owners : Int
  enemies : Int
  converted : Int

/-- The fields of `clientinfo` that are used. -/
structure Capture.Client where
  state : PlayState
  team : Ctf.Name
  o : Capture.Place
  gameclip : Bool
  lastspawn : Int
  /-- `deadflush` is set. -/
  deadflush : Bool
  deriving DecidableEq

/-- The mode, with the clients and the clocks. -/
structure Capture where
  bases : List Capture.Base
  notgotbases : Bool
  clients : List Ctf.Cn
  info : Ctf.Cn → Capture.Client
  gamemillis : Int
  gamelimit : Int

namespace Capture

open Ctf (Cn Name)

/-- `MAXBASES`. -/
def MAXBASES : Nat := 100

/-- `OCCUPYBONUS`. -/
def OCCUPYBONUS : Int := 1

/-- `OCCUPYPOINTS`. -/
def OCCUPYPOINTS : Int := 1

/-- `OCCUPYENEMYLIMIT`. -/
def OCCUPYENEMYLIMIT : Int := 28

/-- `OCCUPYNEUTRALLIMIT`. -/
def OCCUPYNEUTRALLIMIT : Int := 14

/-! ## One base -/

namespace Base

/-- `insidebase(b, o)`. -/
def inside (b : Base) (o : Place) : Bool := o.any b.insidebase

/-- A base as `addbase` makes it. -/
def fresh (insidebase : Vec → Bool) (valid : Bool) : Base := ⟨insidebase, valid, [], [], 0, 0, 0⟩

/-- `void noenemy()`. -/
def noenemy (b : Base) : Base := { b with enemy := [], enemies := 0, converted := 0 }

/-- `bool enter(const char *team)`. -/
def enter (b : Base) (team : Name) : Base :=
  if b.owner = team then { b with owners := b.owners + 1 }
  else if b.enemies = 0 then
    { b with
      converted := if b.enemy ≠ team then 0 else b.converted
      enemy := team
      enemies := b.enemies + 1 }
  else if b.enemy ≠ team then b
  else { b with enemies := b.enemies + 1 }

/-- `bool steal(const char *team)`. -/
def steal (b : Base) (team : Name) : Prop := b.enemies = 0 ∧ b.owner ≠ team

instance (b : Base) (team : Name) : Decidable (b.steal team) := inferInstanceAs (Decidable (_ ∧ _))

/-- `bool leave(const char *team)`. -/
def leave (b : Base) (team : Name) : Base :=
  if b.owner = team ∧ b.owners > 0 then { b with owners := b.owners - 1 }
  else if b.enemy ≠ team ∨ b.enemies ≤ 0 then b
  else { b with enemies := b.enemies - 1 }

/-- `int occupy(const char *team, int units)`. -/
def occupy (b : Base) (team : Name) (units : Int) : Base :=
  if b.enemy ≠ team then b
  else
    let b := { b with converted := b.converted + units }
    if units < 0 then
      if b.converted ≤ 0 then b.noenemy else b
    else if b.converted < (if b.owner ≠ [] then OCCUPYENEMYLIMIT else OCCUPYNEUTRALLIMIT) then b
    else if b.owner ≠ [] then { b with owner := [], converted := 0, enemy := team }
    else { b with owner := team, owners := b.enemies }.noenemy

/-- What one base does in `movebases`; `thieves` are the teams of the clients that `stealbase`
finds there. -/
def moved (b : Base) (team : Name) (leave enter : Bool) (thieves : List Name) : Base :=
  if ¬ b.valid then b
  else if leave ∧ ¬ enter then b.leave team
  else if enter ∧ ¬ leave then b.enter team
  else if leave ∧ enter ∧ b.steal team then thieves.foldl Base.enter b
  else b

end Base

/-! ## The mode -/

/-- A client changes. -/
def modifyClient (s : Capture) (cn : Cn) (f : Client → Client) : Capture :=
  { s with info := Function.update s.info cn (f (s.info cn)) }

/-- The clients that `stealbase` finds at a base. -/
def thieves (s : Capture) (b : Base) (team : Name) : List Cn :=
  s.clients.filter fun c => (s.info c).state = .ALIVE ∧ (s.info c).team ≠ [] ∧
    (s.info c).team = team ∧ b.inside (s.info c).o

/-- `void movebases(const char *team, const vec &oldpos, bool oldclip, const vec &newpos, bool
newclip)`. -/
def movebases (s : Capture) (team : Name) (oldpos : Place) (oldclip : Bool) (newpos : Place)
    (newclip : Bool) : Capture :=
  let move (b : Base) :=
    b.moved team (!oldclip && b.inside oldpos) (!newclip && b.inside newpos)
      ((s.thieves b team).map fun c => (s.info c).team)
  if team = [] ∨ s.gamemillis ≥ s.gamelimit then s else { s with bases := s.bases.map move }

/-- `void leavebases(const char *team, const vec &o)`. -/
def leavebases (s : Capture) (team : Name) (o : Place) : Capture :=
  s.movebases team o false none true

/-- `void enterbases(const char *team, const vec &o)`. -/
def enterbases (s : Capture) (team : Name) (o : Place) : Capture :=
  s.movebases team none true o false

/-- `void entergame(clientinfo *ci)`. -/
def entergame (s : Capture) (cn : Cn) : Capture :=
  let ci := s.info cn
  if s.notgotbases ∨ ci.state ≠ .ALIVE ∨ ci.gameclip then s else s.enterbases ci.team ci.o

/-- `void spawned(clientinfo *ci)`. -/
def spawned (s : Capture) (cn : Cn) : Capture :=
  let ci := s.info cn
  if s.notgotbases ∨ ci.gameclip then s else s.enterbases ci.team ci.o

/-- `void leavegame(clientinfo *ci, bool disconnecting)`. -/
def leavegame (s : Capture) (cn : Cn) : Capture :=
  let ci := s.info cn
  if s.notgotbases ∨ ci.state ≠ .ALIVE ∨ ci.gameclip then s else s.leavebases ci.team ci.o

/-- `void died(clientinfo *ci, clientinfo *actor)`. -/
def died (s : Capture) (cn : Cn) : Capture :=
  let ci := s.info cn
  if s.notgotbases ∨ ci.gameclip then s else s.leavebases ci.team ci.o

/-- `void changeteam(clientinfo *ci, const char *oldteam, const char *newteam)`. -/
def changeteam (s : Capture) (cn : Cn) (oldteam newteam : Name) : Capture :=
  let ci := s.info cn
  if s.notgotbases ∨ ci.gameclip then s
  else (s.leavebases oldteam ci.o).enterbases newteam ci.o

/-- All valid bases belong to one team: `endcheck` ends the game. -/
def won (s : Capture) : Bool :=
  match (s.bases.filter (·.valid)).map (·.owner) with
  | [] => false
  | team :: teams => team ≠ [] ∧ teams.all (· = team)

/-- What `update` does with one base after so many seconds. -/
def Base.update (b : Base) (t : Int) : Base :=
  if ¬ b.valid ∨ b.enemy = [] ∨ ¬ (b.owners = 0 ∨ b.enemies = 0) then b
  else b.occupy b.enemy (OCCUPYBONUS * (if b.enemies ≠ 0 then 1 else -1) +
    OCCUPYPOINTS * (if b.enemies ≠ 0 then b.enemies else -(1 + b.owners)) * t)

/-- `void update()`; `curtime` is the time since the last one. -/
def update (s : Capture) (curtime : Int) : Capture :=
  if s.gamemillis ≥ s.gamelimit then s
  else
    let s := if s.won then { s with gamelimit := min s.gamelimit s.gamemillis } else s
    let t := s.gamemillis.tdiv 1000 - (s.gamemillis - curtime).tdiv 1000
    if t < 1 then s else { s with bases := s.bases.map (·.update t) }

/-- The clients that are alive enter the bases that have become known. -/
def enterall (s : Capture) : Capture :=
  s.clients.foldl (fun s cn => if (s.info cn).state = .ALIVE then s.entergame cn else s) s

/-- `void parsebases(ucharbuf &p, bool commit)`, for the bases that have been read. -/
def parsebases (s : Capture) (list : List Base) (commit : Bool) : Capture :=
  if ¬ commit ∨ ¬ s.notgotbases then s
  else enterall { s with
    bases := (s.bases ++ list.map fun b => Base.fresh b.insidebase b.valid).take MAXBASES
    notgotbases := false }

/-- `void setup()`: the bases of the map, if the server has the map. -/
def setup (s : Capture) (ments : Option (List Base)) : Capture :=
  match ments with
  | none => { s with bases := [], notgotbases := true }
  | some list => enterall { s with
    bases := (list.map fun b => Base.fresh b.insidebase b.valid).take MAXBASES
    notgotbases := false }

/-! ## What happens -/

/-- What a client is after it has died. -/
def Client.dead (ci : Client) : Client := { ci with state := .DEAD }

/-- What a client is after it has been killed. -/
def Client.killed (ci : Client) : Client := { ci.dead with deadflush := true }

/-- `void respawn()`. -/
def Client.respawn (ci : Client) : Client :=
  { ci with o := none, lastspawn := -1, deadflush := false }

/-- `void mapchange()`, and `sendspawn(ci)` for one that plays. -/
def Client.mapchange (ci : Client) : Client :=
  let ci := { ci with gameclip := false }
  if ci.state = .SPECTATOR then ci.respawn else { ci.respawn.dead with lastspawn := 0 }

/-- `void reassign()` and, for one that is alive, `sendspawn(ci)`. -/
def Client.reassign (ci : Client) (gamemillis : Int) : Client :=
  if ci.state = .ALIVE then { ci.respawn with lastspawn := gamemillis } else ci.respawn

/-- `void suicide(clientinfo *ci)`; `prevented` is the answer of `event_suicide`. -/
def suicide (s : Capture) (cn : Cn) (prevented : Bool) : Capture :=
  if prevented ∨ (s.info cn).state ≠ .ALIVE then s
  else (s.died cn).modifyClient cn fun ci => ci.dead.respawn

/-- What happens to the mode. -/
inductive Action
  /-- `N_POS`. -/
  | move (cn : Cn) (pos : Vec) (clip : Bool)
  /-- `try_respawn`, after which the client may spawn. -/
  | respawn (cn : Cn)
  /-- `N_SPAWN`. -/
  | spawn (cn : Cn)
  /-- `dodamage` leaves nothing of the target's health. -/
  | kill (target : Cn)
  | suicide (cn : Cn) (prevented : Bool)
  /-- `player_slay`. -/
  | slay (cn : Cn)
  /-- `do_fake_damage` leaves nothing of the target's health; `actor` may be unknown. -/
  | fakedamage (target : Cn) (actor : Bool)
  /-- `N_SWITCHTEAM`, `N_SETTEAM` and `player_changeteam`: the client commits suicide, unless it
  need not or is prevented, and changes. -/
  | changeteam (cn : Cn) (team : Name) (dosuicide prevented : Bool)
  /-- The teams of the bots are balanced. -/
  | botteam (cn : Cn) (team : Name)
  /-- `reinitai` of a bot that has got another owner, as the one that it had has left or become a
  spectator, or the bots have been spread anew. -/
  | reassign (cn : Cn)
  | spectator (cn : Cn) (val : Bool)
  | connect (cn : Cn) (team : Name)
  | disconnect (cn : Cn)
  /-- A client is found invisible, or is heard of again. -/
  | lagged (cn : Cn) (val : Bool)
  /-- `N_BASES`. -/
  | initbases (list : List Base) (commit : Bool)
  | changemap (ments : Option (List Base)) (gamelimit : Int)
  | tick (millis : Nat)
  /-- `changetime`. -/
  | changetime (remaining : Int)
  | update (curtime : Nat)

/-- One action. -/
def step (s : Capture) : Action → Capture
  | .move cn pos clip =>
    let ci := s.info cn
    (if ci.state = .ALIVE ∧ ¬ s.notgotbases then
      s.movebases ci.team ci.o ci.gameclip (some pos) clip
    else s).modifyClient cn fun ci => { ci with o := some pos, gameclip := clip }
  | .respawn cn =>
    if (s.info cn).state = .DEAD ∧ (s.info cn).lastspawn < 0 then
      s.modifyClient cn fun ci =>
        { (if ci.deadflush then ci.respawn else ci) with lastspawn := s.gamemillis }
    else s
  | .spawn cn =>
    let ci := s.info cn
    if (ci.state = .ALIVE ∨ ci.state = .DEAD ∨ ci.state = .EDITING) ∧ ci.lastspawn ≥ 0 then
      (s.modifyClient cn fun ci => { ci with lastspawn := -1, state := .ALIVE }).spawned cn
    else s
  | .kill target =>
    if (s.info target).state = .ALIVE then (s.died target).modifyClient target Client.killed else s
  | .suicide cn prevented => s.suicide cn prevented
  | .slay cn => if (s.info cn).state = .ALIVE then s.modifyClient cn Client.dead else s
  | .fakedamage target actor =>
    (if actor then s.died target else s).modifyClient target Client.killed
  | .changeteam cn team dosuicide prevented =>
    (if dosuicide then s.suicide cn prevented else s).modifyClient cn fun ci =>
      { ci with team := team }
  | .botteam cn team =>
    (if (s.info cn).state = .ALIVE then s.changeteam cn (s.info cn).team team
    else s).modifyClient cn fun ci => { ci with team := team }
  | .reassign cn => s.modifyClient cn fun ci => ci.reassign s.gamemillis
  | .spectator cn val =>
    if (s.info cn).state ≠ .SPECTATOR ∧ val then
      (s.leavegame cn).modifyClient cn fun ci => { ci with state := .SPECTATOR }
    else if (s.info cn).state = .SPECTATOR ∧ ¬ val then
      s.modifyClient cn fun ci => ci.dead.respawn
    else s
  | .connect cn team =>
    if cn ∈ s.clients then s
    else { s.modifyClient cn fun _ => ⟨.DEAD, team, none, false, -1, false⟩ with
      clients := s.clients ++ [cn] }
  | .disconnect cn => { s.leavegame cn with clients := s.clients.filter (· ≠ cn) }
  | .lagged cn val =>
    if val then s.modifyClient cn fun ci => { ci with state := .LAGGED }
    else if (s.info cn).state = .LAGGED then
      s.modifyClient cn fun ci => { ci with state := .ALIVE }
    else s
  | .initbases list commit => s.parsebases list commit
  | .changemap ments gamelimit =>
    { s with
      info := fun cn => (s.info cn).mapchange
      gamemillis := 0
      gamelimit := gamelimit }.setup ments
  | .tick millis => { s with gamemillis := s.gamemillis + millis }
  | .changetime remaining => { s with gamelimit := s.gamemillis + remaining }
  | .update curtime => s.update curtime

/-- The client that acts, if one does. -/
def Action.client : Action → Option Cn
  | .move cn .. | .respawn cn | .spawn cn | .kill cn | .suicide cn _ | .slay cn => cn
  | .fakedamage cn _ | .changeteam cn .. | .botteam cn _ | .spectator cn _ | .disconnect cn => cn
  | .lagged cn _ | .reassign cn => cn
  | .connect .. | .initbases .. | .changemap .. | .tick _ | .changetime _ | .update _ => none

/-- One action, if the client that acts is connected. -/
def next (s : Capture) (a : Action) : Capture :=
  if a.client.all (· ∈ s.clients) then s.step a else s

end Capture

end Zuckerserv

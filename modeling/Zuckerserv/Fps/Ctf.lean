import Mathlib.Data.List.Infix
import Zuckerserv.Fps.Combat

/-!
# The flag modes

`ctfservmode` of `fpsgame/ctf.h`: the flags of a map, in the modes ctf, protect and hold, and
what clients and commands of the server do to them.

* `Flag`, `Client`, `Ctf` — the flags, the clients and the mode.
* `Flag.own`, `Flag.drop`, `Flag.returned` — `ownflag`, `dropflag` and `returnflag`.
* `dropflag`, `leavegame`, `died`, `scoreflag`, `passFlag`, `takeflag`, `update` — the code.
* `Action`, `step` — what happens to the mode from outside.
-/

namespace Zuckerserv

namespace Ctf

open Game (PlayState Vec)

/-! ## Flags and clients -/

/-- A client number. -/
abbrev Cn := Nat

/-- The name of a team. -/
abbrev Name := List UInt8

/-- "good". -/
def good : Name := [103, 111, 111, 100]

/-- "evil". -/
def evil : Name := [101, 118, 105, 108]

/-- `ctfteamflag(s)`. -/
def ctfteamflag (s : Name) : Int := if s = good then 1 else if s = evil then 2 else 0

/-- `ctfflagteam(i)`, `none` for `NULL`. -/
def ctfflagteam (i : Int) : Option Name :=
  if i = 1 then some good else if i = 2 then some evil else none

/-- `INT_MAX`. -/
def INT_MAX : Int := 2147483647

/-- `flag`, without what only the scripts are told. -/
structure Flag where
  version : Int
  spawnindex : Int
  droploc : Vec
  spawnloc : Vec
  team : Int
  /-- When the flag was dropped; 0 if it was not. -/
  droptime : Int
  owntime : Int
  /-- `none` for -1. -/
  owner : Option Cn
  dropcount : Int
  /-- `none` for -1. -/
  dropper : Option Cn
  invistime : Int
  /-- The hold clock: since when one team has had the flag; 0 if it does not run. -/
  starttimemssameteaminarow : Int
  tmillis : Int
  drops : Int
  deriving DecidableEq

/-- `void reset()`, with the team and place of the new flag. -/
def Flag.fresh (team : Int) (spawnloc : Vec) (invistime : Int) : Flag :=
  ⟨0, -1, ⟨0, 0, 0⟩, spawnloc, team, 0, 0, none, 0, none, invistime, 0, -1, 0⟩

/-- The fields of `clientinfo` that are used. -/
structure Client where
  connected : Bool
  state : PlayState
  team : Name
  /-- The position, in the units in which drops are sent. -/
  o : Vec

/-- What does not change during a game. -/
structure Rules where
  mHold : Bool
  mProtect : Bool
  ctftkpenalty : Bool
  rugbyEnabled : Int
  ctf_m_hold_HOLDSECS : Int
  /-- `insidebase`: the position of the base, and that of the client. -/
  insidebase : Vec → Vec → Bool
  /-- The next numbers of the random generator. -/
  rnd : Int → Nat → Nat

/-- `RESETFLAGTIME`. -/
def RESETFLAGTIME : Int := 10000

/-- `FLAGLIMIT`. -/
def FLAGLIMIT : Int := 10

/-- `MAXFLAGS`. -/
def MAXFLAGS : Nat := 20

/-- `MAXHOLDSPAWNS`. -/
def MAXHOLDSPAWNS : Nat := 100

end Ctf

open Ctf in
/-- The mode, with the clients and the clocks. -/
structure Ctf where
  flags : List Flag
  notgotflags : Bool
  holdspawns : List Game.Vec
  /-- `scores[0]` and `scores[1]`. -/
  scores : Int × Int
  clients : Cn → Client
  totalmillis : Int
  lastmillis : Int
  gamemillis : Int
  gamelimit : Int

namespace Ctf

open Game (PlayState Vec)

/-! ## One flag -/

namespace Flag

/-- `++f.version`. -/
def bump (f : Flag) : Flag := { f with version := f.version + 1 }

/-- `void ownflag(int i, int owner, int owntime)`, `team` being that of a client. The hold
clock is set back when the name of the last owner's team does not contain the new one's. -/
def own (f : Flag) (team : Cn → Name) (owner : Cn) (owntime totalmillis : Int) : Flag :=
  { f with
    starttimemssameteaminarow := match f.owner with
      | some prev => if team owner <:+: team prev then f.starttimemssameteaminarow else totalmillis
      | none => f.starttimemssameteaminarow
    owner := some owner
    owntime := owntime
    dropcount := if f.dropper = some owner then
        if f.dropcount < INT_MAX then f.dropcount + 1 else f.dropcount
      else 0
    dropper := none
    invistime := 0 }

/-- `void dropflag(int i, const vec &o, int droptime, int dropper, bool penalty)`. -/
def drop (f : Flag) (o : Vec) (droptime : Int) (dropper : Cn) (penalty : Bool) : Flag :=
  { f with
    droploc := o
    droptime := droptime
    dropcount := if penalty then INT_MAX else f.dropcount
    dropper := some dropper
    owner := none
    starttimemssameteaminarow := 0
    invistime := 0
    tmillis := -1
    drops := f.drops + 1 }

/-- `void returnflag(int i, int invistime)`. -/
def returned (f : Flag) (invistime : Int) : Flag :=
  { f with
    droptime := 0
    dropcount := 0
    owner := none
    dropper := none
    invistime := invistime
    tmillis := -1
    drops := 0
    starttimemssameteaminarow := 0 }

/-- `dropper = -1; dropcount = 0`. -/
def forget (f : Flag) : Flag := { f with dropper := none, dropcount := 0 }

end Flag

/-! ## The mode -/

variable (R : Rules)

/-- The flag `i` changes. -/
def modifyFlag (s : Ctf) (i : Nat) (f : Flag → Flag) : Ctf := { s with flags := s.flags.modify i f }

/-- The client `cn` changes. -/
def modifyClient (s : Ctf) (cn : Cn) (f : Client → Client) : Ctf :=
  { s with clients := Function.update s.clients cn (f (s.clients cn)) }

/-- The team of a client. -/
def team (s : Ctf) (cn : Cn) : Name := (s.clients cn).team

/-- `int addscore(int team, int score)`. -/
def addscore (s : Ctf) (team score : Int) : Ctf :=
  if team = 1 then { s with scores := (s.scores.1 + score, s.scores.2) }
  else if team = 2 then { s with scores := (s.scores.1, s.scores.2 + score) }
  else s

/-- `int totalscore(int team)`. -/
def totalscore (s : Ctf) (team : Int) : Int :=
  if team = 1 then s.scores.1 else if team = 2 then s.scores.2 else 0

/-- What `dropflag` does with a flag of the client `cn`. -/
def Flag.leave (s : Ctf) (cn : Cn) (dropper : Option Cn) (f : Flag) : Flag :=
  let o := (s.clients cn).o
  if R.mProtect ∧ R.insidebase f.spawnloc o then (f.returned 0).bump
  else (f.drop o s.lastmillis (dropper.getD cn) (dropper.isSome && dropper ≠ some cn)).bump

/-- `void dropflag(clientinfo *ci, clientinfo *dropper)`. -/
def dropflag (s : Ctf) (cn : Cn) (dropper : Option Cn) : Ctf :=
  if s.notgotflags then s
  else { s with flags := s.flags.map fun f =>
    if f.owner = some cn then f.leave R s cn dropper else f }

/-- The loops at the end of `leavegame` and `died`. -/
def forgetdropper (s : Ctf) (cn : Cn) : Ctf :=
  { s with flags := s.flags.map fun f => if f.dropper = some cn then f.forget else f }

/-- `void leavegame(clientinfo *ci, bool disconnecting)`. -/
def leavegame (s : Ctf) (cn : Cn) : Ctf := (s.dropflag R cn none).forgetdropper cn

/-- `void died(clientinfo *ci, clientinfo *actor)`. -/
def died (s : Ctf) (cn : Cn) (actor : Option Cn) : Ctf :=
  let dropper := actor.filter fun a => R.ctftkpenalty ∧ a ≠ cn ∧ s.team a = s.team cn
  (s.dropflag R cn dropper).forgetdropper cn

/-- The last of at most four draws: one that differs from the index so far ends them. -/
def drawspawn (rnd : Nat → Nat) (n : Nat) (spawnindex : Int) : Nat → Int → Int
  | 0, last => last
  | j + 1, _ =>
    let drawn : Int := (rnd j % n : Nat)
    if drawn ≠ spawnindex then drawn else drawspawn rnd n spawnindex j drawn

/-- `void spawnflag(int i)`. -/
def spawnflag (s : Ctf) (i : Nat) : Ctf :=
  if s.holdspawns = [] then s
  else s.modifyFlag i fun f => { f with
    spawnindex := drawspawn (R.rnd s.totalmillis) s.holdspawns.length f.spawnindex 4 f.spawnindex }

/-- `void scoreflag(clientinfo *ci, int goal, int relay)`. -/
def scoreflag (s : Ctf) (cn : Cn) (goal : Nat) (relay : Option Nat) : Ctf :=
  let team := ctfteamflag (s.team cn)
  let s := s.modifyFlag (relay.getD goal) fun f =>
    f.returned (if R.mProtect then s.lastmillis else 0)
  let s := s.addscore team 1
  let s := if R.mHold then s.spawnflag R goal else s
  let s := match relay with
    | some relay => s.modifyFlag relay Flag.bump
    | none => s
  let s := s.modifyFlag goal Flag.bump
  if s.totalscore team ≥ FLAGLIMIT then { s with gamelimit := min s.gamelimit s.gamemillis } else s

/-- `void pass_flag(int fromclientnum, int toclientnum, int distance)`. -/
def passFlag (s : Ctf) (fromclientnum toclientnum : Cn) : Ctf :=
  { s with flags := s.flags.map fun f =>
    if f.owner = some fromclientnum then
      (f.own s.team toclientnum s.lastmillis s.totalmillis).bump
    else f }

/-! ### Taking a flag -/

/-- The first line of `takeflag` lets the request pass; the flag it is for. -/
def requested (s : Ctf) (cn : Cn) (i : Int) : Option (Nat × Flag) :=
  if s.notgotflags ∨ i < 0 ∨ (s.clients cn).state ≠ .ALIVE ∨ s.team cn = [] then none
  else (s.flags[i.toNat]?).map fun f => (i.toNat, f)

/-- The request is refused by the checks on the flag. -/
def refused (f : Flag) (cn : Cn) (version : Int) : Prop :=
  (if R.mHold then f.spawnindex < 0 else ctfflagteam f.team = none) ∨ f.owner ≠ none ∨
    f.version ≠ version ∨ (f.droptime ≠ 0 ∧ f.dropper = some cn ∧ f.dropcount ≥ 1)

instance (f : Flag) (cn : Cn) (version : Int) : Decidable (refused R f cn version) := by
  unfold refused
  infer_instance

/-- What comes of a request. -/
inductive Outcome
  | refused
  /-- The flag is taken. -/
  | take
  /-- The flag is touched by the other team, in the protect mode. -/
  | score
  /-- The own flag is returned to its base. -/
  | giveback
  /-- A flag that is carried has been brought to the own one. -/
  | relay (j : Nat)
  deriving DecidableEq

/-- The decision of `takeflag`, for a flag that has been requested. -/
def decide (s : Ctf) (cn : Cn) (f : Flag) (version : Int) : Outcome :=
  let own : Bool := f.team = ctfteamflag (s.team cn)
  let carried := s.flags.findIdx? fun f => f.owner = some cn
  if refused R f cn version then .refused
  else if R.mHold ∨ R.mProtect = own then
    if carried.isSome then .refused else .take
  else if R.mProtect then
    if f.invistime = 0 then .score else .refused
  else if f.droptime ≠ 0 then .giveback
  else match carried with
    | some j => .relay j
    | none => .refused

/-- `void takeflag(clientinfo *ci, int i, int version)`. -/
def takeflag (s : Ctf) (cn : Cn) (i version : Int) : Ctf :=
  match s.requested cn i with
  | none => s
  | some (i, f) =>
    -- the hold clock is started before the request is checked
    let clock := fun f : Flag => if f.starttimemssameteaminarow = 0 then
      { f with starttimemssameteaminarow := s.totalmillis } else f
    let t := s.modifyFlag i clock
    match s.decide R cn f version with
    | .refused => t
    | .take => t.modifyFlag i fun f =>
      let f := (f.own s.team cn s.lastmillis s.totalmillis).bump
      if f.drops = 0 then { f with tmillis := s.totalmillis } else f
    | .score => t.scoreflag R cn i none
    | .giveback => t.modifyFlag i fun f => (f.returned 0).bump
    | .relay j => t.scoreflag R cn i (some j)

/-! ### The update -/

/-- A flag is scored for having been held. -/
structure Held where
  flag : Nat
  cn : Cn
  deriving DecidableEq

/-- A dropped flag has lain long enough. -/
def Flag.abandoned (f : Flag) (lastmillis : Int) : Prop :=
  f.owner = none ∧ f.droptime ≠ 0 ∧ lastmillis - f.droptime ≥ RESETFLAGTIME

instance (f : Flag) (lastmillis : Int) : Decidable (f.abandoned lastmillis) :=
  inferInstanceAs (Decidable (_ ∧ _))

/-- The flag has been held long enough, in the hold mode; its owner. -/
def holder (s : Ctf) (f : Flag) : Option Cn :=
  if R.mHold ∧
      ((R.rugbyEnabled = 0 ∧ s.lastmillis - f.owntime ≥ R.ctf_m_hold_HOLDSECS) ∨
        (R.rugbyEnabled = 1 ∧ 0 < f.starttimemssameteaminarow ∧
          s.totalmillis - f.starttimemssameteaminarow ≥ R.ctf_m_hold_HOLDSECS)) then f.owner
  else none

/-- The flag `i` is reset when it has been abandoned. -/
def resetflag (i : Nat) : Prog Ctf Held := .modify fun s =>
  match s.flags[i]? with
  | none => s
  | some f =>
    if f.abandoned s.lastmillis then
      let s := s.modifyFlag i fun f => f.returned (if R.mProtect then s.lastmillis else 0)
      let s := if R.mHold then s.spawnflag R i else s
      let s := s.modifyFlag i Flag.bump
      if R.mHold then s else s.addscore f.team (if R.mProtect then -1 else 0)
    else s

/-- The flag `i` becomes visible. -/
def showflag (i : Nat) : Prog Ctf Held := .modify fun s => s.modifyFlag i fun f =>
  if f.invistime ≠ 0 ∧ s.lastmillis - f.invistime ≥ R.ctf_m_hold_HOLDSECS then
    { f with invistime := 0 }
  else f

/-- The flag `i` is scored when it has been held. -/
def scoreheld (i : Nat) : Prog Ctf Held := .choose fun s =>
  match (s.flags[i]?).bind (s.holder R) with
  | none => .skip
  | some cn =>
    if (s.clients cn).connected then .act (·.scoreflag R cn i none) [⟨i, cn⟩]
    else .modify fun s => (s.spawnflag R i).modifyFlag i Flag.bump

/-- `void update()`. -/
def update : Prog Ctf Held := .choose fun s =>
  if s.gamemillis ≥ s.gamelimit ∨ s.notgotflags then .skip
  else .each (fun i => .seq (resetflag R i) (.seq (showflag R i) (scoreheld R i)))
    (List.range s.flags.length)

/-! ### The flags of the map -/

/-- `void setupholdspawns()`: `HOLDFLAGS` is 1. -/
def setupholdspawns (s : Ctf) : Ctf :=
  if ¬ R.mHold ∨ s.holdspawns = [] ∨ s.flags ≠ [] then s
  else
    let s := { s with flags := [Flag.fresh 0 ⟨0, 0, 0⟩ 0] }
    (s.spawnflag R 0).modifyFlag 0 Flag.bump

/-- `void parseflags(ucharbuf &p, bool commit)`, for the flags that have been read: each one
is added under its number. -/
def parseflags (s : Ctf) (list : List (Int × Vec)) (commit : Bool) : Ctf :=
  if ¬ commit ∨ ¬ s.notgotflags then s
  else if R.mHold then
    { { s with holdspawns := (s.holdspawns ++ list.map Prod.snd).take MAXHOLDSPAWNS }.setupholdspawns R
      with notgotflags := false }
  else { s with
    flags := ((list.take MAXFLAGS).map fun p =>
      Flag.fresh p.1 p.2 (if R.mProtect then s.lastmillis else 0)) ++
        s.flags.drop (list.take MAXFLAGS).length
    notgotflags := false }

/-! ## What happens -/

/-- `void suicide(clientinfo *ci)`; `prevented` is the answer of `event_suicide`. -/
def suicide (s : Ctf) (cn : Cn) (prevented : Bool) : Ctf :=
  if prevented ∨ (s.clients cn).state ≠ .ALIVE then s
  else (s.died R cn none).modifyClient cn fun ci => { ci with state := .DEAD }

/-- What happens to the mode. -/
inductive Action
  /-- `N_TAKEFLAG`. -/
  | takeflag (cn : Cn) (i version : Int)
  /-- `N_TRYDROPFLAG`. -/
  | trydropflag (cn : Cn)
  /-- `N_INITFLAGS`. -/
  | initflags (list : List (Int × Vec)) (commit : Bool)
  /-- `dodamage` leaves nothing of the target's health. -/
  | kill (target actor : Cn)
  | suicide (cn : Cn) (prevented : Bool)
  /-- `player_slay`. -/
  | slay (cn : Cn)
  /-- `do_fake_damage` leaves nothing of the target's health; `actor` may be unknown. -/
  | fakedamage (target : Cn) (actor : Option Cn)
  /-- `player_pass_flag`. -/
  | passflag (fromclientnum toclientnum : Cn)
  /-- `N_SWITCHTEAM`, `N_SETTEAM` and `player_changeteam`: if the mode has the team, the client
  commits suicide, unless it need not or is prevented, and changes. -/
  | changeteam (cn : Cn) (team : Name) (dosuicide prevented : Bool)
  /-- A bot gets another team. -/
  | botteam (cn : Cn) (team : Name)
  /-- `setspectator`. -/
  | spectator (cn : Cn) (val : Bool)
  | connect (cn : Cn) (state : PlayState) (team : Name)
  | disconnect (cn : Cn)
  /-- `N_SPAWN`. -/
  | spawn (cn : Cn)
  /-- The anticheat finds that a client does not send its positions, or finds that it does. -/
  | lagged (cn : Cn) (val : Bool)
  /-- A client moves. -/
  | move (cn : Cn) (o : Vec)
  /-- Time passes, and that of the game, which may run slower or faster, or be paused. -/
  | tick (elapsedtime curtime : Nat)
  | update

/-- The client `cn` dies. -/
def kill (s : Ctf) (target : Cn) (actor : Option Cn) : Ctf :=
  (s.died R target actor).modifyClient target fun ci => { ci with state := .DEAD }

/-- The server does what it is told; the messages of clients that are not connected are not
read. -/
def step : Action → Prog Ctf Held
  | .takeflag cn i version => .modify fun s =>
    if (s.clients cn).connected then s.takeflag R cn i version else s
  | .trydropflag cn => .modify fun s =>
    if (s.clients cn).connected then s.dropflag R cn none else s
  | .initflags list commit => .modify fun s => s.parseflags R list commit
  | .kill target actor => .modify fun s =>
    if (s.clients target).state = .ALIVE then s.kill R target (some actor) else s
  | .suicide cn prevented => .modify fun s => s.suicide R cn prevented
  | .slay cn => .modify fun s =>
    if (s.clients cn).state = .ALIVE then s.modifyClient cn fun ci => { ci with state := .DEAD }
    else s
  | .fakedamage target actor => .modify fun s =>
    match actor with
    | some actor => s.kill R target (some actor)
    | none => s.modifyClient target fun ci => { ci with state := .DEAD }
  | .passflag fromclientnum toclientnum => .modify fun s => s.passFlag fromclientnum toclientnum
  | .changeteam cn team dosuicide prevented => .modify fun s =>
    if ctfteamflag team > 0 then
      (if dosuicide then s.suicide R cn prevented else s).modifyClient cn fun ci =>
        { ci with team := team }
    else s
  | .botteam cn team => .modify fun s =>
    (if (s.clients cn).state = .ALIVE then s.dropflag R cn none else s).modifyClient cn fun ci =>
      { ci with team := team }
  | .spectator cn val => .modify fun s =>
    let ci := s.clients cn
    if ¬ ci.connected then s
    else if ci.state ≠ .SPECTATOR ∧ val then
      (s.leavegame R cn).modifyClient cn fun ci => { ci with state := .SPECTATOR }
    else if ci.state = .SPECTATOR ∧ ¬ val then
      s.modifyClient cn fun ci => { ci with state := .DEAD }
    else s
  | .connect cn state team => .modify fun s =>
    if (s.clients cn).connected then s
    else s.modifyClient cn fun ci => { ci with connected := true, state := state, team := team }
  | .disconnect cn => .modify fun s =>
    if (s.clients cn).connected then
      (s.leavegame R cn).modifyClient cn fun ci => { ci with connected := false }
    else s
  | .spawn cn => .modify fun s =>
    let ci := s.clients cn
    if ci.connected ∧ (ci.state = .ALIVE ∨ ci.state = .DEAD ∨ ci.state = .EDITING) then
      s.modifyClient cn fun ci => { ci with state := .ALIVE }
    else s
  | .lagged cn val => .modify fun s =>
    if val then s.modifyClient cn fun ci => { ci with state := .LAGGED }
    else if (s.clients cn).state = .LAGGED then
      s.modifyClient cn fun ci => { ci with state := .ALIVE }
    else s
  | .move cn o => .modify fun s => s.modifyClient cn fun ci => { ci with o := o }
  | .tick elapsedtime curtime => .modify fun s => { s with
    totalmillis := s.totalmillis + elapsedtime
    lastmillis := s.lastmillis + curtime
    gamemillis := s.gamemillis + curtime }
  | .update => update R

end Ctf

end Zuckerserv

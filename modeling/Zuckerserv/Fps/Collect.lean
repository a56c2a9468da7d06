import Zuckerserv.Fps.Ctf
import Zuckerserv.Lib.Sweep

/-!
# The collect mode

`collectservmode` of `fpsgame/collect.h`: who dies drops tokens, the other team collects them and
brings them to a base of its enemies, where it can steal some as well.

* `Token`, `Base`, `Client`, `Collect` — tokens, bases, clients and the mode.
* `Message` — what the clients are told.
* `droptoken`, `droptokens`, `leavegame`, `deposittokens`, `taketoken`, `update` — the code.
* `Action`, `step` — what happens to the mode from outside.
-/

namespace Zuckerserv

open Game (PlayState)

/-- `token`, without its place. -/
structure Collect.Token where
  id : Int
  team : Int
  droptime : Int
  /-- The number of a client; -1 minus the number of the base for a stolen token; `INT_MIN` when
  the client has left. -/
  dropper : Int
  deriving DecidableEq

/-- `base`, without its place. -/
structure Collect.Base where
  team : Int
  laststeal : Int
  deriving DecidableEq

/-- The fields of `clientinfo` that are used. -/
structure Collect.Client where
  state : PlayState
  team : Ctf.Name
  tokens : Int
  flags : Int
  deriving DecidableEq

/-- The mode, with the clients and the clocks. -/
structure Collect where
  bases : List Collect.Base
  /-- `scores[0]` and `scores[1]`. -/
  scores : Int × Int
  tokens : List Collect.Token
  nexttoken : Int
  notgotbases : Bool
  clients : List Ctf.Cn
  info : Ctf.Cn → Collect.Client
  lastmillis : Int
  gamemillis : Int
  gamelimit : Int

namespace Collect

open Ctf (Cn Name good evil)
open Sweep (loopvrev quota)

/-- `collectteambase(s)`. -/
def collectteambase (s : Name) : Int := if s = good then 1 else if s = evil then 2 else 0

/-- `collectbaseteam(i)` is not `NULL`. -/
def collectbaseteam (i : Int) : Prop := i = 1 ∨ i = 2

instance (i : Int) : Decidable (collectbaseteam i) := inferInstanceAs (Decidable (_ ∨ _))

/-- `INT_MAX`. -/
def INT_MAX : Int := 2147483647

/-- `INT_MIN`. -/
def INT_MIN : Int := -2147483648

/-- `MAXBASES`. -/
def MAXBASES : Nat := 20

/-- `TOKENLIMIT`. -/
def TOKENLIMIT : Int := 5

/-- `UNOWNEDTOKENLIMIT`. -/
def UNOWNEDTOKENLIMIT : Int := 15

/-- `SCORELIMIT`. -/
def SCORELIMIT : Int := 50

/-- `EXPIRETOKENTIME`. -/
def EXPIRETOKENTIME : Int := 10000

/-- `STEALTOKENTIME`. -/
def STEALTOKENTIME : Int := 5000

/-- What the clients are told. -/
inductive Message
  /-- `N_EXPIRETOKENS`. -/
  | expiretokens (ids : List Int)
  /-- `N_DROPTOKENS`: the numbers and teams of the tokens. -/
  | droptokens (cn : Cn) (drops : List (Int × Int))
  /-- `N_DEPOSITTOKENS`. -/
  | deposittokens (cn : Cn) (basenum deposited team score flags : Int)
  /-- `N_STEALTOKENS`. -/
  | stealtokens (cn : Cn) (team basenum enemyteam score id : Int)
  /-- `N_TAKETOKEN`. -/
  | taketoken (cn : Cn) (id total : Int)
  deriving DecidableEq

/-! ## The mode -/

/-- A client changes. -/
def modifyClient (s : Collect) (cn : Cn) (f : Client → Client) : Collect :=
  { s with info := Function.update s.info cn (f (s.info cn)) }

/-- `int addscore(int team, int score)`. -/
def addscore (s : Collect) (team score : Int) : Collect :=
  if team = 1 then { s with scores := (s.scores.1 + score, s.scores.2) }
  else if team = 2 then { s with scores := (s.scores.1, s.scores.2 + score) }
  else s

/-- `int totalscore(int team)`. -/
def totalscore (s : Collect) (team : Int) : Int :=
  if team = 1 then s.scores.1 else if team = 2 then s.scores.2 else 0

/-- `++nexttoken`, that begins again when it overflows. -/
def nextid (nexttoken : Int) : Int :=
  let next := if nexttoken = INT_MAX then INT_MIN else nexttoken + 1
  if next < 0 then 1 else next

/-- `token &droptoken(const vec &o, int yaw, int team, int droptime, int dropper)`. -/
def droptoken (s : Collect) (team droptime dropper : Int) : Collect :=
  { s with
    nexttoken := nextid s.nexttoken
    tokens := s.tokens ++ [⟨nextid s.nexttoken, team, droptime, dropper⟩] }

/-- So many tokens are dropped: one of the own team, the others of the enemies. -/
def drops (s : Collect) (cn : Cn) (team : Int) (numdrops : Nat) : Collect :=
  (List.range numdrops).foldl
    (fun s i => s.droptoken (if i = 0 then team else -team) s.lastmillis cn) s

/-- What is told of tokens that have been removed. -/
def expired (removed : List Token) : List Message :=
  if removed = [] then [] else [.expiretokens (removed.map Token.id)]

/-- The token lies there because of the dropper. -/
def Token.of (dropper : Int) (t : Token) : Bool := t.dropper = dropper

/-- A token that the client has dropped counts as friendly if it is of its team. -/
def droppedby (cn : Cn) (team : Int) (t : Token) : Option Bool :=
  if t.dropper = cn then some (t.team = team) else none

/-- A token without owner, or that the client has dropped. -/
def unowned (cn : Cn) (team : Int) (t : Token) : Option Bool :=
  if t.dropper = cn ∨ t.dropper ≤ INT_MIN then some (t.team = team) else none

/-- `void droptokens(clientinfo *ci, bool penalty)`. -/
def droptokens (cn : Cn) (penalty : Bool) : Prog Collect Message := .choose fun s =>
  if s.notgotbases then .skip
  else
    let ci := s.info cn
    let team := collectteambase ci.team
    let carried := if penalty then 0 else ci.tokens
    let (kept, removed) := loopvrev (quota (droppedby cn team) id TOKENLIMIT)
      (fun friendly => if friendly then 1 else carried) s.tokens
    let s' := { s with tokens := kept }.drops cn team (1 + carried).toNat
    .act (fun _ => s'.modifyClient cn fun ci => { ci with tokens := 0 }) (expired removed ++
      [.droptokens cn ((s'.tokens.drop kept.length).map fun t => (t.id, t.team))])

/-- `void leavegame(clientinfo *ci, bool disconnecting)`. The inner loop of the code goes on where
the outer one has stopped. -/
def leavegame (cn : Cn) (disconnecting : Bool) : Prog Collect Message := .choose fun s =>
  let left := s.modifyClient cn fun ci => { ci with tokens := 0 }
  if ¬ disconnecting then .act (fun _ => left) []
  else
    let team := collectteambase (s.info cn).team
    let (kept, removed) := loopvrev (quota (unowned cn team) (fun t => { t with dropper := INT_MIN })
      UNOWNEDTOKENLIMIT) (fun _ => 0) s.tokens
    .act (fun _ => { left with tokens := kept }) (expired removed)

/-- `void died(clientinfo *ci, clientinfo *actor)`. -/
def died (cn : Cn) (actor : Option Cn) : Prog Collect Message := .choose fun s =>
  droptokens cn (actor.all fun actor => (s.info actor).team = (s.info cn).team)

/-- `void deposittokens(clientinfo *ci, int basenum)`. -/
def deposittokens (cn : Cn) (basenum : Int) : Prog Collect Message := .choose fun s =>
  let ci := s.info cn
  if s.notgotbases ∨ basenum < 0 ∨ ci.state ≠ .ALIVE ∨ ci.team = [] then .skip
  else match s.bases[basenum.toNat]? with
    | none => .skip
    | some b =>
      let team := collectteambase ci.team
      let robbed := { s with bases := s.bases.set basenum.toNat { b with laststeal := s.gamemillis } }
      if ¬ collectbaseteam b.team ∨ b.team = team then .skip
      else if ci.tokens > 0 then
        let scored := robbed.addscore team ci.tokens
        let score := scored.totalscore team
        let emptied := scored.modifyClient cn fun ci =>
          { ci with flags := ci.flags + ci.tokens, tokens := 0 }
        .act (fun _ => if score ≥ SCORELIMIT then
            { emptied with gamelimit := min emptied.gamelimit emptied.gamemillis }
          else emptied)
          [.deposittokens cn basenum ci.tokens team score (ci.flags + ci.tokens)]
      else if s.gamemillis < b.laststeal + STEALTOKENTIME then .skip
      else if s.totalscore b.team ≤ 0 then .skip
      else if (s.tokens.countP (Token.of (-1 - basenum)) : Int) < TOKENLIMIT then
        let stolen := (robbed.addscore b.team (-1)).droptoken team s.lastmillis (-1 - basenum)
        .act (fun _ => stolen)
          [.stealtokens cn team basenum b.team (stolen.totalscore b.team) stolen.nexttoken]
      else .skip

/-- The client gets the token that it takes. -/
def credits (s : Collect) (cn : Cn) (t : Token) : Prop :=
  t.team ≠ collectteambase (s.info cn).team ∧
    (t.team > 0 ∨ -t.team = collectteambase (s.info cn).team) ∧ (s.info cn).tokens < TOKENLIMIT

instance (s : Collect) (cn : Cn) (t : Token) : Decidable (s.credits cn t) :=
  inferInstanceAs (Decidable (_ ∧ _ ∧ _))

/-- The token that a client asks for, if it may. -/
def asked (s : Collect) (cn : Cn) (id : Int) : Option Token :=
  if s.notgotbases ∨ (s.info cn).state ≠ .ALIVE ∨ (s.info cn).team = [] then none
  else s.tokens.find? (·.id = id)

/-- `void taketoken(clientinfo *ci, int id)`. -/
def taketoken (cn : Cn) (id : Int) : Prog Collect Message := .choose fun s =>
  match s.asked cn id with
  | none => .skip
  | some t =>
    let tokens := if s.credits cn t then (s.info cn).tokens + 1 else (s.info cn).tokens
    .act (·.modifyClient cn fun ci => { ci with tokens := tokens }) [.taketoken cn id tokens]

/-- A token that has lain too long is removed. -/
def expire (lastmillis : Int) (u : Unit) (t : Token) : Unit × Option Token :=
  (u, if lastmillis - t.droptime ≥ EXPIRETOKENTIME then none else some t)

/-- `void update()`. -/
def update : Prog Collect Message := .choose fun s =>
  if s.gamemillis ≥ s.gamelimit ∨ s.notgotbases then .skip
  else
    let (kept, removed) := loopvrev (expire s.lastmillis) () s.tokens
    .act (fun s => { s with tokens := kept }) (expired removed)

/-- `void parsebases(ucharbuf &p, bool commit)`, for the teams of the bases that have been read. -/
def parsebases (s : Collect) (teams : List Int) (commit : Bool) : Collect :=
  if ¬ commit ∨ ¬ s.notgotbases then s
  else { s with
    bases := (teams.take MAXBASES).map (⟨·, 0⟩) ++ s.bases.drop (teams.take MAXBASES).length
    notgotbases := false }

/-- `void reset(bool empty)`. -/
def reset (s : Collect) (empty : Bool) : Collect :=
  { s with bases := [], tokens := [], scores := (0, 0), nexttoken := 0, notgotbases := !empty }

/-- `void setup()`: the teams of the bases of the map, if the server has the map. -/
def setup (s : Collect) (ments : Option (List Int)) : Collect :=
  match ments with
  | none => s.reset false
  | some teams => { s.reset false with
    bases := (teams.take MAXBASES).map (⟨·, 0⟩), notgotbases := false }

/-! ## What happens -/

/-- `clientinfo::mapchange`. -/
def Client.mapchange (ci : Client) : Client :=
  { ci with state := if ci.state = .SPECTATOR then .SPECTATOR else .DEAD, tokens := 0, flags := 0 }

/-- What happens to the mode. -/
inductive Action
  /-- `N_TAKETOKEN`. -/
  | taketoken (cn : Cn) (id : Int)
  /-- `N_DEPOSITTOKENS`. -/
  | deposittokens (cn : Cn) (basenum : Int)
  /-- `N_INITTOKENS`. -/
  | inittokens (teams : List Int) (commit : Bool)
  /-- A client dies, by another or by itself. -/
  | die (cn : Cn) (actor : Option Cn)
  /-- `respawn()`, before a client spawns or, in `reassign()`, as a bot changes its owner. -/
  | respawn (cn : Cn)
  /-- `N_SPAWN`. -/
  | spawn (cn : Cn)
  /-- A client becomes lagged, is slain, edits the map. -/
  | state (cn : Cn) (state : PlayState)
  | changeteam (cn : Cn) (team : Name)
  | spectator (cn : Cn)
  | connect (cn : Cn) (team : Name)
  | disconnect (cn : Cn)
  | changemap (ments : Option (List Int))
  | tick (millis : Nat)
  | update

/-- One action. -/
def step : Action → Prog Collect Message
  | .taketoken cn id => .choose fun s => if cn ∈ s.clients then taketoken cn id else .skip
  | .deposittokens cn basenum => .choose fun s =>
    if cn ∈ s.clients then deposittokens cn basenum else .skip
  | .inittokens teams commit => .modify (·.parsebases teams commit)
  | .die cn actor => .seq (died cn actor) (.modify (·.modifyClient cn fun ci =>
    { ci with state := .DEAD }))
  | .respawn cn => .modify (·.modifyClient cn fun ci => { ci with tokens := 0 })
  | .spawn cn => .modify (·.modifyClient cn fun ci => { ci with state := .ALIVE })
  | .state cn state => .modify (·.modifyClient cn fun ci => { ci with state := state })
  | .changeteam cn team => .modify (·.modifyClient cn fun ci => { ci with team := team })
  | .spectator cn => .seq (leavegame cn false) (.modify (·.modifyClient cn fun ci =>
    { ci with state := .SPECTATOR }))
  | .connect cn team => .modify fun s =>
    if cn ∈ s.clients then s
    else { s.modifyClient cn fun _ => ⟨.DEAD, team, 0, 0⟩ with clients := s.clients ++ [cn] }
  | .disconnect cn => .choose fun s =>
    if cn ∈ s.clients then
      .seq (leavegame cn true) (.modify fun s => { s with clients := s.clients.filter (· ≠ cn) })
    else .skip
  | .changemap ments => .modify fun s => { s with info := fun cn => (s.info cn).mapchange }.setup ments
  | .tick millis => .modify fun s =>
    { s with lastmillis := s.lastmillis + millis, gamemillis := s.gamemillis + millis }
  | .update => update

end Collect

end Zuckerserv

import Mathlib.Data.List.Basic

/-!
# Message types

The enumeration of the network messages in `fpsgame/game.h`, for `PROTOCOL_VERSION` 259.

* `Msg` — the messages, in the order of the source.
* `Msg.code`, `Msg.ofCode` — the number a message type has on the wire, and back.
-/

namespace Zuckerserv

/-- The message types `N_CONNECT = 0, …`. -/
inductive Msg
  | N_CONNECT | N_SERVINFO | N_WELCOME | N_INITCLIENT | N_POS | N_TEXT | N_SOUND | N_CDIS
  | N_SHOOT | N_EXPLODE | N_SUICIDE | N_DIED | N_DAMAGE | N_HITPUSH | N_SHOTFX | N_EXPLODEFX
  | N_TRYSPAWN | N_SPAWNSTATE | N_SPAWN | N_FORCEDEATH | N_GUNSELECT | N_TAUNT | N_MAPCHANGE
  | N_MAPVOTE | N_TEAMINFO | N_ITEMSPAWN | N_ITEMPICKUP | N_ITEMACC | N_TELEPORT | N_JUMPPAD
  | N_PING | N_PONG | N_CLIENTPING | N_TIMEUP | N_FORCEINTERMISSION | N_SERVMSG | N_ITEMLIST
  | N_RESUME | N_EDITMODE | N_EDITENT | N_EDITF | N_EDITT | N_EDITM | N_FLIP | N_COPY | N_PASTE
  | N_ROTATE | N_REPLACE | N_DELCUBE | N_REMIP | N_NEWMAP | N_GETMAP | N_SENDMAP | N_CLIPBOARD
  | N_EDITVAR | N_MASTERMODE | N_KICK | N_CLEARBANS | N_CURRENTMASTER | N_SPECTATOR | N_SETMASTER
  | N_SETTEAM | N_BASES | N_BASEINFO | N_BASESCORE | N_REPAMMO | N_BASEREGEN | N_ANNOUNCE
  | N_LISTDEMOS | N_SENDDEMOLIST | N_GETDEMO | N_SENDDEMO | N_DEMOPLAYBACK | N_RECORDDEMO
  | N_STOPDEMO | N_CLEARDEMOS | N_TAKEFLAG | N_RETURNFLAG | N_RESETFLAG | N_INVISFLAG
  | N_TRYDROPFLAG | N_DROPFLAG | N_SCOREFLAG | N_INITFLAGS | N_SAYTEAM | N_CLIENT | N_AUTHTRY
  | N_AUTHKICK | N_AUTHCHAL | N_AUTHANS | N_REQAUTH | N_PAUSEGAME | N_GAMESPEED | N_ADDBOT
  | N_DELBOT | N_INITAI | N_FROMAI | N_BOTLIMIT | N_BOTBALANCE | N_MAPCRC | N_CHECKMAPS
  | N_SWITCHNAME | N_SWITCHMODEL | N_SWITCHTEAM | N_INITTOKENS | N_TAKETOKEN | N_EXPIRETOKENS
  | N_DROPTOKENS | N_DEPOSITTOKENS | N_STEALTOKENS | N_SERVCMD | N_DEMOPACKET
  deriving DecidableEq, Repr

/-- The value of the enumerator. -/
def Msg.code (m : Msg) : Int32 := Int32.ofNat m.ctorIdx

/-- The messages in the order of their numbers. -/
def Msg.all : List Msg :=
  [.N_CONNECT, .N_SERVINFO, .N_WELCOME, .N_INITCLIENT, .N_POS, .N_TEXT, .N_SOUND, .N_CDIS,
    .N_SHOOT, .N_EXPLODE, .N_SUICIDE, .N_DIED, .N_DAMAGE, .N_HITPUSH, .N_SHOTFX, .N_EXPLODEFX,
    .N_TRYSPAWN, .N_SPAWNSTATE, .N_SPAWN, .N_FORCEDEATH, .N_GUNSELECT, .N_TAUNT, .N_MAPCHANGE,
    .N_MAPVOTE, .N_TEAMINFO, .N_ITEMSPAWN, .N_ITEMPICKUP, .N_ITEMACC, .N_TELEPORT, .N_JUMPPAD,
    .N_PING, .N_PONG, .N_CLIENTPING, .N_TIMEUP, .N_FORCEINTERMISSION, .N_SERVMSG, .N_ITEMLIST,
    .N_RESUME, .N_EDITMODE, .N_EDITENT, .N_EDITF, .N_EDITT, .N_EDITM, .N_FLIP, .N_COPY, .N_PASTE,
    .N_ROTATE, .N_REPLACE, .N_DELCUBE, .N_REMIP, .N_NEWMAP, .N_GETMAP, .N_SENDMAP, .N_CLIPBOARD,
    .N_EDITVAR, .N_MASTERMODE, .N_KICK, .N_CLEARBANS, .N_CURRENTMASTER, .N_SPECTATOR, .N_SETMASTER,
    .N_SETTEAM, .N_BASES, .N_BASEINFO, .N_BASESCORE, .N_REPAMMO, .N_BASEREGEN, .N_ANNOUNCE,
    .N_LISTDEMOS, .N_SENDDEMOLIST, .N_GETDEMO, .N_SENDDEMO, .N_DEMOPLAYBACK, .N_RECORDDEMO,
    .N_STOPDEMO, .N_CLEARDEMOS, .N_TAKEFLAG, .N_RETURNFLAG, .N_RESETFLAG, .N_INVISFLAG,
    .N_TRYDROPFLAG, .N_DROPFLAG, .N_SCOREFLAG, .N_INITFLAGS, .N_SAYTEAM, .N_CLIENT, .N_AUTHTRY,
    .N_AUTHKICK, .N_AUTHCHAL, .N_AUTHANS, .N_REQAUTH, .N_PAUSEGAME, .N_GAMESPEED, .N_ADDBOT,
    .N_DELBOT, .N_INITAI, .N_FROMAI, .N_BOTLIMIT, .N_BOTBALANCE, .N_MAPCRC, .N_CHECKMAPS,
    .N_SWITCHNAME, .N_SWITCHMODEL, .N_SWITCHTEAM, .N_INITTOKENS, .N_TAKETOKEN, .N_EXPIRETOKENS,
    .N_DROPTOKENS, .N_DEPOSITTOKENS, .N_STEALTOKENS, .N_SERVCMD, .N_DEMOPACKET]

/-- The message of a number, if it is `msg >= 0 && msg < NUMMSG`. -/
def Msg.ofCode (n : Int32) : Option Msg := if 0 ≤ n then Msg.all[n.toInt.toNat]? else none

theorem Msg.ofCode_code (m : Msg) : Msg.ofCode m.code = some m := by
  cases m <;> rfl

end Zuckerserv

import Zuckerserv.Shared.Text

/-!
# The team table

The table keeps the tallies of the teams. It holds as much of a team's name as a name may have, and
a limited number of teams; those that are out of use make room.

* `access`, `pruneteaminfo`, `addteaminfo` — the operations.
-/

namespace Zuckerserv

namespace Teams

open Text

/-- `MAXNAMELEN`. -/
def MAXNAMELEN : Nat := 15

/-- `MAXTEAMLEN`. -/
def MAXTEAMLEN : Nat := 4

/-- `MAXTEAMS`. -/
def MAXTEAMS : Nat := 128

/-- `hthash(key)`, masked for a table of 1024 chains. -/
def chainOf (key : Text) : UInt32 :=
  let h : UInt32 := key.foldl (fun (h : UInt32) (k : UInt8) =>
    ((h <<< 5) + h) ^^^ k.toInt8.toInt32.toUInt32) 5381
  h &&& 1023

/-- `struct teaminfo`, in one of the chains of the table. -/
structure TeamInfo where
  chain : UInt32
  team : Text
  frags : Int
  deriving DecidableEq

/-- The entry is the one that a search for the team finds. -/
def TeamInfo.is (t : TeamInfo) (team : Text) : Bool := t.chain == chainOf team && t.team == team

/-- `teaminfos.access(team)`; the latest entry of a chain is the first. -/
def access (teaminfos : List TeamInfo) (team : Text) : Option TeamInfo :=
  teaminfos.find? (·.is team)

theorem access_cons (t : TeamInfo) (teaminfos : List TeamInfo) (team : Text) :
    access (t :: teaminfos) team = if t.is team = true then some t else access teaminfos team := by
  rw [access, List.find?_cons]
  cases t.is team <;> rfl

/-- `pruneteaminfo()` where `teams` are the teams of the clients: the table, and whether it is
smaller. -/
def pruneteaminfo (teaminfos : List TeamInfo) (teams : List Text) : List TeamInfo × Bool :=
  let pruned := teaminfos.foldl (fun table old =>
    if old.frags = 0 ∧ old.team ∉ teams then table.eraseP (·.is old.team) else table) teaminfos
  (pruned, pruned.length < teaminfos.length)

/-- `addteaminfo(team)` where `teams` are the teams of the clients: the table, and whether there is
an entry. -/
def addteaminfo (teaminfos : List TeamInfo) (teams : List Text) (team : Text) :
    List TeamInfo × Bool :=
  match access teaminfos team with
  | some _ => (teaminfos, true)
  | none =>
    let pruned := if teaminfos.length ≥ MAXTEAMS then pruneteaminfo teaminfos teams
      else (teaminfos, true)
    if ¬ pruned.2 then (pruned.1, false)
    else (⟨chainOf team, copystring (MAXTEAMLEN + 1) team, 0⟩ :: pruned.1, true)

end Teams

end Zuckerserv

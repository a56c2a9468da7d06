import Mathlib.Data.List.Dedup
import Mathlib.Data.List.Perm.Subperm
import Zuckerserv.Fps.TeamTable
import Zuckerserv.Lib.Machine

/-!
# The tallies of the teams

In a team mode a frag counts for the client and for its team, if the team has an entry in the
table. Clients and bots get their teams in several places, and only some of these see to it that
there is an entry.

* `connected`, `setspectator`, `switchteam`, `addai`, `balanceteams`, `changemap`, `frag` — what
  changes the teams and the table.
* `Listed` — every team that somebody plays in has an entry.
* `tallies_kept` — it has in every run where new players come to such teams, and a frag counts for
  exactly the team of the client.
-/

namespace Zuckerserv

namespace Tallies

open Text Teams Machine

/-! ## The server -/

/-- A client or a bot, in a team mode. -/
structure Client where
  n : Int
  bot : Bool
  team : Text
  /-- `state.state == CS_SPECTATOR`. -/
  spectator : Bool
  frags : Int
  deriving DecidableEq

structure Server where
  clients : List Client
  teaminfos : List TeamInfo

/-- `getinfo(n)`. -/
def Server.getinfo (s : Server) (n : Int) : Option Client := s.clients.find? (·.n == n)

/-- The client `n` is changed. -/
def Server.modify (s : Server) (n : Int) (f : Client → Client) : Server :=
  { s with clients := s.clients.map fun ci => if ci.n = n then f ci else ci }

/-- The teams of the clients. -/
def Server.teams (s : Server) : List Text := s.clients.map (·.team)

/-- `"good"`. -/
def good : Text := [103, 111, 111, 100]

/-- `"evil"`. -/
def evil : Text := [101, 118, 105, 108]

/-- `connected(ci)`, where `worst` is the worst team, and `locked` is `mastermode >= MM_LOCKED`. -/
def connected (s : Server) (n : Int) (worst : Text) (locked : Bool) : Server :=
  { s with
    clients := s.clients ++ [⟨n, false, copystring (MAXTEAMLEN + 1) worst, locked, 0⟩] }

/-- `addai(skill, limit)`, where `team` is the team that `chooseteam()` chooses. -/
def addai (s : Server) (n : Int) (team : Text) : Server :=
  { s with clients := s.clients ++ [⟨n, true, copystring (MAXTEAMLEN + 1) team, false, 0⟩] }

/-- `balanceteams()`, for the one bot `n` that goes to the team that is last. -/
def balanceteams (s : Server) (n : Int) (team : Text) : Server :=
  s.modify n fun bot => { bot with team := copystring (MAXTEAMLEN + 1) team }

/-- A client goes to the team `text` in a buffer of the length `len`, if there is room in the table
for the team. -/
def changeteam (len : Nat) (s : Server) (n : Int) (text : Text) : Server :=
  let added := addteaminfo s.teaminfos s.teams text
  let s := { s with teaminfos := added.1 }
  if added.2 then s.modify n fun ci => { ci with team := copystring len text } else s

/-- The case `N_SWITCHTEAM`. A suicide before the change is a step of its own. -/
def switchteam : Server → Int → Text → Server := changeteam MAXSTRLEN

/-- The case `N_SETTEAM`. -/
def setteam : Server → Int → Text → Server := changeteam (MAXTEAMLEN + 1)

/-- `player_changeteam(cn, newteam, dosuicide)`. -/
def playerChangeteam : Server → Int → Text → Server := changeteam (MAXTEAMLEN + 1)

/-- `setspectator(spinfo, val)`. -/
def setspectator (s : Server) (n : Int) (val : Bool) : Server :=
  s.modify n fun ci => if ci.bot then ci else { ci with spectator := val }

/-- The clients that are picked go to the team. -/
def assign (s : Server) (picked : Int → Bool) (team : Text) : Server :=
  { s with
    clients := s.clients.map fun ci =>
      if picked ci.n then { ci with team := copystring (MAXTEAMLEN + 1) team } else ci }

/-- `autoteam()`, where `picked` tells the index of the team that a client is put into. Those that
are left when no team is behind stay where they are. -/
def autoteam (s : Server) (picked : Int → Option (Fin 2)) : Server :=
  let s := { s with teaminfos := (addteaminfo s.teaminfos s.teams good).1 }
  let s := assign s (fun n => picked n == some 0) good
  let s := { s with teaminfos := (addteaminfo s.teaminfos s.teams evil).1 }
  assign s (fun n => picked n == some 1) evil

/-- What `changemap(s, mode, mins)` does for a team mode: the bots go, the table is made anew, with
`autoteam()` if `reassignteams` is set, and the frags are reset. -/
def changemap (s : Server) (reassignteams : Bool) (picked : Int → Option (Fin 2)) : Server :=
  let s : Server := { clients := s.clients.filter fun ci => !ci.bot, teaminfos := [] }
  let s :=
    if reassignteams then autoteam s picked
    else
      { s with
        teaminfos := s.teams.foldl (fun table team => (addteaminfo table s.teams team).1) [] }
  { s with clients := s.clients.map fun ci => { ci with frags := 0 } }

/-- `t->frags += fragvalue` for the entry `t` of the team, if there is one. -/
def credit (team : Text) (fragvalue : Int) : List TeamInfo → List TeamInfo
  | [] => []
  | t :: table =>
    if t.is team then { t with frags := t.frags + fragvalue } :: table
    else t :: credit team fragvalue table

/-- A frag, a suicide or a team kill of the client `n`. -/
def frag (s : Server) (n : Int) (fragvalue : Int) : Server :=
  match s.getinfo n with
  | none => s
  | some actor =>
    { s.modify n fun ci => { ci with frags := ci.frags + fragvalue } with
      teaminfos := credit actor.team fragvalue s.teaminfos }

/-- What happens on a server in a team mode. -/
inductive Action
  | connect (n : Int) (worst : Text) (locked : Bool)
  /-- A client or a bot leaves. -/
  | leave (n : Int)
  | spectate (n : Int) (val : Bool)
  | switchteam (n : Int) (text : Text)
  | setteam (who : Int) (text : Text)
  | playerChangeteam (cn : Int) (newteam : Text)
  | addai (n : Int) (team : Text)
  | balance (n : Int) (team : Text)
  | changemap (reassignteams : Bool) (picked : Int → Option (Fin 2))
  | frag (n : Int) (fragvalue : Int)

/-- One step of the server. -/
def step (s : Server) : Action → Server
  | .connect n worst locked => connected s n worst locked
  | .leave n => { s with clients := s.clients.filter (·.n ≠ n) }
  | .spectate n val => setspectator s n val
  | .switchteam n text => switchteam s n text
  | .setteam who text => setteam s who text
  | .playerChangeteam cn newteam => playerChangeteam s cn newteam
  | .addai n team => addai s n team
  | .balance n team => balanceteams s n team
  | .changemap reassignteams picked => changemap s reassignteams picked
  | .frag n fragvalue => frag s n fragvalue

/-- The server that nobody is on. -/
def start : Server := ⟨[], []⟩

/-! ## The teams in the table -/

/-- The team has an entry. -/
def Server.Has (s : Server) (team : Text) : Prop := (access s.teaminfos team).isSome = true

/-- Every team that somebody plays in has an entry, and the table is not too large. -/
structure Server.Listed (s : Server) : Prop where
  listed : ∀ ci ∈ s.clients, ci.spectator = false → ci.team ≠ [] → s.Has ci.team
  few : s.teaminfos.length ≤ MAXTEAMS

/-- The frag of a client that plays in a team counts for the client, for the team's entry, and for
no other. -/
def Server.Counts (s : Server) : Prop :=
  ∀ n fragvalue ci, s.getinfo n = some ci → ci.spectator = false → ci.team ≠ [] →
    (frag s n fragvalue).getinfo n = some { ci with frags := ci.frags + fragvalue } ∧
      ∃ t, access s.teaminfos ci.team = some t ∧ ∀ team,
        access (frag s n fragvalue).teaminfos team =
          if team = ci.team then some { t with frags := t.frags + fragvalue }
          else access s.teaminfos team

/-- A client or bot that begins to play, or is put into a team without regard to the table, comes
to a team with an entry; a team that is asked for has a name that is short enough; and the change
of the map leaves nobody in a team without an entry. -/
def Proper (s : Server) : Action → Prop
  | .connect _ worst locked => locked = true ∨ s.Has (copystring (MAXTEAMLEN + 1) worst)
  | .leave _ => True
  | .spectate n val => val = true ∨ ∀ ci ∈ s.clients, ci.n = n → ci.team = [] ∨ s.Has ci.team
  | .switchteam _ text => text.length ≤ MAXTEAMLEN
  | .setteam _ text => text.length ≤ MAXTEAMLEN
  | .playerChangeteam _ newteam => newteam.length ≤ MAXTEAMLEN
  | .addai _ team => team = [] ∨ s.Has (copystring (MAXTEAMLEN + 1) team)
  | .balance _ team => team = [] ∨ s.Has (copystring (MAXTEAMLEN + 1) team)
  | .changemap true picked => ∀ ci ∈ s.clients, ci.bot = false → ci.spectator = false →
      picked ci.n = none → ci.team ∈ [[], good, evil]
  | .changemap false _ =>
      (∀ ci ∈ s.clients, ci.bot = false → ci.team.length ≤ MAXTEAMLEN) ∧
        ((s.clients.filter fun ci => !ci.bot).map (·.team)).dedup.length ≤ MAXTEAMS
  | .frag _ _ => True

/-! ## The operations of the table -/

variable {s : Server} {table : List TeamInfo} {teams : List Text} {team : Text}

/-- The entry of a team is not the entry of another one. -/
theorem not_is_of_ne {t : TeamInfo} {team' : Text} (h : t.is team = true) (hne : team' ≠ team) :
    t.is team' = false := by
  have hteam := (Bool.and_eq_true_iff.mp h).2
  rw [beq_iff_eq] at hteam
  rw [TeamInfo.is, Bool.and_eq_false_iff]
  exact .inr (beq_eq_false_iff_ne.mpr fun heq => hne (heq.symm.trans hteam))

/-- The entries after an addition to one. -/
theorem access_credit (team team' : Text) (fragvalue : Int) (table : List TeamInfo) :
    access (credit team fragvalue table) team' =
      if team' = team then (access table team).map fun t => { t with frags := t.frags + fragvalue }
      else access table team' := by
  induction table with
  | nil =>
    split <;> rfl
  | cons t table ih =>
    unfold credit
    by_cases ht : t.is team = true
    · rw [if_pos ht, access_cons, access_cons, access_cons, if_pos ht]
      have hsame : TeamInfo.is { t with frags := t.frags + fragvalue } = t.is := rfl
      rw [hsame]
      by_cases hteam : team' = team
      · rw [if_pos hteam, hteam, if_pos ht]
        rfl
      · rw [if_neg hteam, not_is_of_ne ht hteam, if_neg Bool.false_ne_true,
          if_neg Bool.false_ne_true]
    · rw [if_neg ht, access_cons, access_cons, access_cons, if_neg ht, ih]
      by_cases ht' : t.is team' = true
      · have hteam : team' ≠ team := fun heq => ht (heq ▸ ht')
        rw [if_pos ht', if_neg hteam, if_pos ht']
      · rw [if_neg ht', if_neg ht']

theorem length_credit (team : Text) (fragvalue : Int) (table : List TeamInfo) :
    (credit team fragvalue table).length = table.length := by
  induction table with
  | nil => rfl
  | cons t table ih =>
    unfold credit
    split
    · rfl
    · rw [List.length_cons, List.length_cons, ih]

/-- Another team's entry is removed. -/
theorem access_eraseP {team' : Text} (hne : team' ≠ team) (table : List TeamInfo) :
    access (table.eraseP (·.is team)) team' = access table team' := by
  induction table with
  | nil => rfl
  | cons t table ih =>
    rw [List.eraseP_cons]
    cases ht : t.is team with
    | true => rw [cond_true, access_cons, not_is_of_ne ht hne, if_neg Bool.false_ne_true]
    | false => rw [cond_false, access_cons, access_cons, ih]

/-- A team that has clients keeps its entry. -/
theorem access_pruneteaminfo (hteam : team ∈ teams) (table : List TeamInfo) :
    access (pruneteaminfo table teams).1 team = access table team := by
  have hfold (olds table : List TeamInfo) :
      access (olds.foldl (fun table old =>
        if old.frags = 0 ∧ old.team ∉ teams then table.eraseP (·.is old.team) else table) table)
          team = access table team := by
    induction olds generalizing table with
    | nil => rfl
    | cons old olds ih =>
      rw [List.foldl_cons, ih]
      split
      · rename_i hold
        exact access_eraseP (fun heq => hold.2 (by rw [← heq]; exact hteam)) table
      · rfl
  exact hfold table table

/-- A team that has clients keeps its entry when another one is added. -/
theorem isSome_access_addteaminfo {team' : Text} (hteam : team ∈ teams)
    (h : (access table team).isSome = true) :
    (access (addteaminfo table teams team').1 team).isSome = true := by
  unfold addteaminfo
  split
  · exact h
  · have hpruned : (access (if table.length ≥ MAXTEAMS then pruneteaminfo table teams
        else (table, true)).1 team).isSome = true := by
      split
      · rwa [access_pruneteaminfo hteam]
      · exact h
    dsimp only
    generalize (if table.length ≥ MAXTEAMS then pruneteaminfo table teams
      else (table, true)) = pruned at hpruned ⊢
    split
    · exact hpruned
    · rw [access_cons]
      split
      · rfl
      · exact hpruned

/-- The team that is added has an entry, if its name is short. -/
theorem isSome_access_added (hadded : (addteaminfo table teams team).2 = true)
    (hshort : team.length ≤ MAXTEAMLEN) :
    (access (addteaminfo table teams team).1 team).isSome = true := by
  unfold addteaminfo at hadded ⊢
  split
  · rename_i t ht
    rw [ht]
    rfl
  · rename_i hnone
    rw [hnone] at hadded
    dsimp only at hadded ⊢
    generalize (if table.length ≥ MAXTEAMS then pruneteaminfo table teams
      else (table, true)) = pruned at hadded ⊢
    split at hadded
    · exact absurd hadded Bool.false_ne_true
    · rename_i hroom
      rw [if_neg hroom, access_cons, if_pos]
      · rfl
      · rw [TeamInfo.is, copystring_eq_self hshort, beq_self_eq_true, beq_self_eq_true]
        rfl

/-- The table does not become too large. -/
theorem length_addteaminfo (h : table.length ≤ MAXTEAMS) :
    (addteaminfo table teams team).1.length ≤ MAXTEAMS := by
  unfold addteaminfo
  split
  · exact h
  · dsimp only
    by_cases hfull : table.length ≥ MAXTEAMS
    · rw [if_pos hfull]
      have hle : (pruneteaminfo table teams).1.length ≤ table.length := by
        have hfold (olds table : List TeamInfo) :
            (olds.foldl (fun table old =>
              if old.frags = 0 ∧ old.team ∉ teams then table.eraseP (·.is old.team)
              else table) table).length ≤ table.length := by
          induction olds generalizing table with
          | nil => exact Nat.le_refl _
          | cons old olds ih =>
            rw [List.foldl_cons]
            refine Nat.le_trans (ih _) ?_
            split
            · exact List.length_eraseP_le
            · exact Nat.le_refl _
        exact hfold table table
      split
      · exact Nat.le_trans hle h
      · rename_i hroom
        have hlt : (pruneteaminfo table teams).1.length < table.length := by
          simpa [pruneteaminfo] using hroom
        exact Nat.le_trans hlt h
    · rw [if_neg hfull]
      simp only [not_true_eq_false, if_false]
      exact Nat.not_le.mp hfull

/-- The entries are those of different teams among the given ones. -/
structure Named (teams : List Text) (table : List TeamInfo) : Prop where
  nodup : (table.map (·.team)).Nodup
  mem : ∀ t ∈ table, t.team ∈ teams ∧ t.chain = chainOf t.team

/-- Where the teams are not too many, there is room for each of them. -/
theorem Named.add (h : Named teams table) (hfew : teams.dedup.length ≤ MAXTEAMS)
    (hteam : team ∈ teams) (hshort : team.length ≤ MAXTEAMLEN) :
    Named teams (addteaminfo table teams team).1 ∧ (addteaminfo table teams team).2 = true := by
  unfold addteaminfo
  split
  · exact ⟨h, rfl⟩
  · rename_i hnone
    have hnew : team ∉ table.map (·.team) := by
      intro hmem
      obtain ⟨t, ht, rfl⟩ := List.mem_map.mp hmem
      refine List.find?_eq_none.mp hnone t ht ?_
      rw [TeamInfo.is, (h.mem t ht).2, beq_self_eq_true, beq_self_eq_true]
      rfl
    have hnodup : (team :: table.map (·.team)).Nodup := List.nodup_cons.mpr ⟨hnew, h.nodup⟩
    have hlt : table.length < MAXTEAMS := by
      have hsub : team :: table.map (·.team) ⊆ teams.dedup := by
        intro x hx
        refine List.mem_dedup.mpr ?_
        rcases List.mem_cons.mp hx with rfl | hold
        · exact hteam
        · obtain ⟨t, ht, rfl⟩ := List.mem_map.mp hold
          exact (h.mem t ht).1
      have hle := (List.subperm_of_subset hnodup hsub).length_le
      rw [List.length_cons, List.length_map] at hle
      exact Nat.le_trans hle hfew
    dsimp only
    rw [if_neg (Nat.not_le.mpr hlt)]
    simp only [not_true_eq_false, if_false, and_true]
    rw [copystring_eq_self hshort]
    refine ⟨hnodup, fun t ht => ?_⟩
    rcases List.mem_cons.mp ht with rfl | hold
    · exact ⟨hteam, rfl⟩
    · exact h.mem t hold

/-- The table that is made anew has all teams, and is not too large. -/
theorem isSome_access_foldl (hfew : teams.dedup.length ≤ MAXTEAMS)
    (hshort : ∀ team ∈ teams, team.length ≤ MAXTEAMLEN) (hteam : team ∈ teams) :
    (access (teams.foldl (fun table team => (addteaminfo table teams team).1) []) team).isSome =
      true := by
  have hfold (added : List Text) (hadded : added ⊆ teams) (table : List TeamInfo)
      (h : Named teams table) (hin : team ∈ added ∨ (access table team).isSome = true) :
      (access (added.foldl (fun table team => (addteaminfo table teams team).1) table)
        team).isSome = true := by
    induction added generalizing table with
    | nil => exact hin.resolve_left List.not_mem_nil
    | cons first rest ih =>
      obtain ⟨hfirst, hrest⟩ := List.cons_subset.mp hadded
      obtain ⟨hnamed, hok⟩ := h.add hfew hfirst (hshort first hfirst)
      refine ih hrest _ hnamed ?_
      rcases hin with hmem | hsome
      · rcases List.mem_cons.mp hmem with rfl | hlater
        · exact .inr (isSome_access_added hok (hshort _ hfirst))
        · exact .inl hlater
      · exact .inr (isSome_access_addteaminfo hteam hsome)
  exact hfold teams (List.Subset.refl _) [] ⟨List.nodup_nil, fun t ht => by simp at ht⟩ (.inl hteam)

theorem length_foldl (added teams : List Text) (h : table.length ≤ MAXTEAMS) :
    (added.foldl (fun table team => (addteaminfo table teams team).1) table).length ≤
      MAXTEAMS := by
  induction added generalizing table with
  | nil => exact h
  | cons team added ih => exact ih (length_addteaminfo h)

/-! ## One step -/

/-- A client is changed, or none. -/
theorem Server.Listed.modify (h : s.Listed) {s' : Server} (n : Int) (f : Client → Client)
    (hclients : s'.clients = s.clients.map fun ci => if ci.n = n then f ci else ci)
    (hkeep : ∀ ci ∈ s.clients, s.Has ci.team → s'.Has ci.team)
    (hnew : ∀ ci ∈ s.clients, ci.n = n → (f ci).spectator = false → (f ci).team ≠ [] →
      s'.Has (f ci).team)
    (hfew : s'.teaminfos.length ≤ MAXTEAMS) : s'.Listed := by
  refine ⟨fun ci hci hplays hteam => ?_, hfew⟩
  rw [hclients] at hci
  obtain ⟨ci', hci', rfl⟩ := List.mem_map.mp hci
  by_cases hn : ci'.n = n
  · rw [if_pos hn] at hplays hteam ⊢
    exact hnew ci' hci' hn hplays hteam
  · rw [if_neg hn] at hplays hteam ⊢
    exact hkeep ci' hci' (h.listed ci' hci' hplays hteam)

/-- A client is put into a team that has an entry. -/
theorem Server.Listed.balanceteams (h : s.Listed) (n : Int)
    (hteam : team = [] ∨ s.Has (copystring (MAXTEAMLEN + 1) team)) :
    (balanceteams s n team).Listed := by
  refine h.modify n _ rfl (fun _ _ hhas => hhas) (fun ci _ _ _ hne => ?_) h.few
  rcases hteam with rfl | hhas
  · exact absurd rfl hne
  · exact hhas

/-- A client or bot comes. -/
theorem Server.Listed.append (h : s.Listed) (ci : Client)
    (hteam : ci.spectator = false → ci.team ≠ [] → s.Has ci.team) :
    Server.Listed { s with clients := s.clients ++ [ci] } := by
  refine ⟨fun ci' hci' hplays hne => ?_, h.few⟩
  rcases List.mem_append.mp hci' with hold | hnew
  · exact h.listed ci' hold hplays hne
  · rw [List.mem_singleton.mp hnew] at hplays hne ⊢
    exact hteam hplays hne

/-- A client goes to a team with a short name. -/
theorem Server.Listed.changeteam (h : s.Listed) {len : Nat} (hlen : MAXTEAMLEN + 1 ≤ len) (n : Int)
    (hshort : team.length ≤ MAXTEAMLEN) : (changeteam len s n team).Listed := by
  have hkeep (ci : Client) (hci : ci ∈ s.clients) (hhas : s.Has ci.team) :
      (access (addteaminfo s.teaminfos s.teams team).1 ci.team).isSome = true :=
    isSome_access_addteaminfo (List.mem_map.mpr ⟨ci, hci, rfl⟩) hhas
  have hfew : (addteaminfo s.teaminfos s.teams team).1.length ≤ MAXTEAMS := length_addteaminfo h.few
  unfold Tallies.changeteam
  dsimp only
  split
  · rename_i hadded
    refine h.modify n _ rfl hkeep (fun ci _ _ _ _ => ?_) hfew
    rw [copystring_eq_self (by omega)]
    exact isSome_access_added hadded hshort
  · exact ⟨fun ci hci hplays hne => hkeep ci hci (h.listed ci hci hplays hne), hfew⟩

/-- The table that `autoteam()` makes. -/
theorem has_autoteam (hempty : s.teaminfos = []) (picked : Int → Option (Fin 2)) :
    (autoteam s picked).Has good ∧ (autoteam s picked).Has evil ∧
      (autoteam s picked).teaminfos.length ≤ MAXTEAMS := by
  have htable (teams teams' : List Text) :
      (addteaminfo (addteaminfo [] teams good).1 teams' evil).1 =
        [⟨chainOf evil, evil, 0⟩, ⟨chainOf good, good, 0⟩] := by
    have hfirst : addteaminfo [] teams good = ([⟨chainOf good, good, 0⟩], true) := rfl
    rw [hfirst]
    rfl
  have hteaminfos : (autoteam s picked).teaminfos =
      [⟨chainOf evil, evil, 0⟩, ⟨chainOf good, good, 0⟩] := by
    rw [← htable s.teams (assign { s with teaminfos := (addteaminfo s.teaminfos s.teams good).1 }
      (fun n => picked n == some 0) good).teams, ← hempty]
    rfl
  unfold Server.Has
  rw [hteaminfos]
  decide

/-- Where everybody is after `autoteam()`. -/
theorem team_autoteam {picked : Int → Option (Fin 2)} {ci : Client}
    (hci : ci ∈ (autoteam s picked).clients) : ∃ ci' ∈ s.clients, ci.spectator = ci'.spectator ∧
      (ci.team = good ∨ ci.team = evil ∨ (picked ci'.n = none ∧ ci.team = ci'.team)) := by
  unfold autoteam assign at hci
  dsimp only at hci
  obtain ⟨ci₁, hci₁, rfl⟩ := List.mem_map.mp hci
  obtain ⟨ci₀, hci₀, rfl⟩ := List.mem_map.mp hci₁
  refine ⟨ci₀, hci₀, ?_⟩
  have hcases : picked ci₀.n = none ∨ picked ci₀.n = some 0 ∨ picked ci₀.n = some 1 := by
    cases picked ci₀.n with
    | none => exact .inl rfl
    | some i =>
      match i with
      | 0 => exact .inr (.inl rfl)
      | 1 => exact .inr (.inr rfl)
  rcases hcases with hpicked | hpicked | hpicked
  · simp [hpicked]
  · simp [hpicked, copystring, good, MAXTEAMLEN]
  · simp [hpicked, copystring, evil, MAXTEAMLEN]

/-- The map changes. -/
theorem Server.Listed.changemap (reassignteams : Bool) (picked : Int → Option (Fin 2))
    (hok : Proper s (.changemap reassignteams picked)) :
    (changemap s reassignteams picked).Listed := by
  have hhumans {ci : Client} (hci : ci ∈ s.clients.filter fun ci => !ci.bot) :
      ci ∈ s.clients ∧ ci.bot = false := by
    simpa using List.mem_filter.mp hci
  cases reassignteams with
  | true =>
    obtain ⟨hgood, hevil, hfew⟩ :=
      has_autoteam (s := { clients := s.clients.filter fun ci => !ci.bot, teaminfos := [] }) rfl
        picked
    refine ⟨fun ci hci hplays hne => ?_, hfew⟩
    obtain ⟨ci₁, hci₁, rfl⟩ := List.mem_map.mp hci
    obtain ⟨ci₀, hci₀, hspectator, hteam⟩ := team_autoteam hci₁
    dsimp only at hplays hne ⊢
    rcases hteam with hteam | hteam | ⟨hpicked, hteam⟩
    · rw [hteam]
      exact hgood
    · rw [hteam]
      exact hevil
    · obtain ⟨hmem, hbot⟩ := hhumans hci₀
      have hnamed := hok ci₀ hmem hbot (hspectator.symm.trans hplays) hpicked
      rw [← hteam] at hnamed
      simp only [List.mem_cons, List.not_mem_nil, or_false] at hnamed
      rcases hnamed with hnone | hname | hname
      · exact absurd hnone hne
      · rw [hname]
        exact hgood
      · rw [hname]
        exact hevil
  | false =>
    obtain ⟨hshort, hmany⟩ := hok
    refine ⟨fun ci hci hplays hne => ?_, length_foldl _ _ (Nat.zero_le _)⟩
    obtain ⟨ci₀, hci₀, rfl⟩ := List.mem_map.mp hci
    refine isSome_access_foldl hmany (fun team hteam => ?_) (List.mem_map.mpr ⟨ci₀, hci₀, rfl⟩)
    obtain ⟨ci', hci', rfl⟩ := List.mem_map.mp hteam
    exact hshort ci' (hhumans hci').1 (hhumans hci').2

/-- One step. -/
theorem Server.Listed.step (s : Server) (a : Action) (hok : Proper s a) (h : s.Listed) :
    (step s a).Listed := by
  cases a with
  | connect n worst locked =>
    refine h.append _ fun hplays _ => ?_
    rcases hok with hlocked | hhas
    · exact absurd (hlocked.symm.trans hplays) (by decide)
    · exact hhas
  | leave n => exact ⟨fun ci hci => h.listed ci (List.mem_of_mem_filter hci), h.few⟩
  | spectate n val =>
    refine h.modify n _ rfl (fun _ _ hhas => hhas) (fun ci hci hn hplays hne => ?_) h.few
    by_cases hbot : ci.bot = true
    · rw [if_pos hbot] at hplays hne ⊢
      exact h.listed ci hci hplays hne
    · rw [if_neg hbot] at hplays hne ⊢
      rcases hok with hval | hteam
      · exact absurd (hval.symm.trans hplays) (by decide)
      · exact (hteam ci hci hn).resolve_left hne
  | switchteam n text => exact h.changeteam (by decide) n hok
  | setteam who text => exact h.changeteam (by decide) who hok
  | playerChangeteam cn newteam => exact h.changeteam (by decide) cn hok
  | addai n team =>
    refine h.append _ fun _ hne => ?_
    rcases hok with rfl | hhas
    · exact absurd rfl hne
    · exact hhas
  | balance n team => exact h.balanceteams n hok
  | changemap reassignteams picked => exact Server.Listed.changemap reassignteams picked hok
  | frag n fragvalue =>
    simp only [Tallies.step, frag]
    cases hactor : s.getinfo n with
    | none => exact h
    | some actor =>
      have hhas (team : Text) (hteam : s.Has team) :
          (access (credit actor.team fragvalue s.teaminfos) team).isSome = true := by
        rw [access_credit]
        split
        · rename_i heq
          rw [Option.isSome_map, ← heq]
          exact hteam
        · exact hteam
      refine h.modify n (fun ci => { ci with frags := ci.frags + fragvalue }) rfl
        (fun ci _ hteam => hhas ci.team hteam)
        (fun ci hci _ hplays hne => hhas ci.team (h.listed ci hci hplays hne)) ?_
      exact (length_credit ..).trans_le h.few

/-- Where every team has an entry, every frag counts. -/
theorem Server.Listed.counts (h : s.Listed) : s.Counts := by
  intro n fragvalue ci hci hplays hne
  have hmem : ci ∈ s.clients := List.mem_of_find?_eq_some hci
  obtain ⟨t, ht⟩ := Option.isSome_iff_exists.mp (h.listed ci hmem hplays hne)
  unfold frag
  rw [hci]
  refine ⟨?_, t, ht, fun team => ?_⟩
  · have hfind (clients : List Client) (hfound : clients.find? (·.n == n) = some ci) :
        (clients.map fun ci => if ci.n = n then { ci with frags := ci.frags + fragvalue }
          else ci).find? (·.n == n) = some { ci with frags := ci.frags + fragvalue } := by
      induction clients with
      | nil => exact absurd hfound (by simp)
      | cons first rest ih =>
        rw [List.map_cons]
        by_cases hn : first.n = n
        · rw [List.find?_cons_of_pos (by simpa using hn)] at hfound
          rw [← Option.some.inj hfound, if_pos hn, List.find?_cons_of_pos (by simpa using hn)]
        · rw [List.find?_cons_of_neg (by simpa using hn)] at hfound
          rw [if_neg hn, List.find?_cons_of_neg (by simpa using hn)]
          exact ih hfound
    exact hfind s.clients hci
  · dsimp only
    rw [access_credit, ht]
    rfl

/-! ## Every run -/

/-- As long as every action is proper, every team that somebody plays in has an entry in the table,
which is not too large, and every frag counts for the client, for its team and for no other, in all
states of the run. -/
theorem tallies_kept (as : List Action) (has : Along Proper step start as) :
    ∀ bs cs, as = bs ++ cs →
      (Machine.run step start bs).Listed ∧ (Machine.run step start bs).Counts := by
  rintro bs cs rfl
  have hstart : start.Listed := ⟨fun ci hci => absurd hci List.not_mem_nil, Nat.zero_le _⟩
  have hlisted := (along_append.mp has).1.inv Server.Listed.step hstart
  exact ⟨hlisted, hlisted.counts⟩

/-- With `reassignteams` off, the map changes before the first client comes. -/
def firstClient : List Action := [.changemap false fun _ => none, .connect 0 good false]

/-- The client's team has no entry, and the frag of the client counts for no team. -/
theorem first_unlisted :
    ¬ (Machine.run step start firstClient).Listed ∧
      ¬ (Machine.run step start firstClient).Counts := by
  constructor
  · intro h
    exact absurd (h.listed ⟨0, false, good, false, 0⟩ (by decide) rfl (by decide))
      (by unfold Server.Has; decide)
  · intro h
    obtain ⟨-, t, ht, -⟩ := h 0 1 ⟨0, false, good, false, 0⟩ rfl rfl (by decide)
    have hnone : access (Machine.run step start firstClient).teaminfos good = none := rfl
    exact absurd (ht.symm.trans hnone) (by simp)

/-- With `reassignteams` on, the client comes to a team with an entry. -/
theorem tallies_kept_reassigned :
    (Machine.run step start [.changemap true fun _ => none, .connect 0 good false]).Counts := by
  refine (tallies_kept [.changemap true fun _ => none, .connect 0 good false] ?_ _ [] rfl).2
  refine ⟨fun ci hci => absurd hci List.not_mem_nil, .inr ?_, trivial⟩
  unfold Server.Has
  decide

end Tallies

end Zuckerserv

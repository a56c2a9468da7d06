import Zuckerserv.Fps.Standings
import Zuckerserv.Lib.DenseRank

/-!
# The ranks of the players

`calc_player_ranks` sorts the players by their frags and numbers them, all of them or team by team.
The teams come from `get_teams`, which gives their names in UTF-8, but the players of a team are
those with this name in the encoding of the game.

* `Sorter` — what is known of `std::sort`.
* `calcRanks`, `calcPlayerRanks` — the code.
* `inGroup`, `ranked` — the players that are compared, and the rank that they should get.
* `calcRanks_eq` — who is in the group gets its rank, and nobody else changes.
* `calc_player_ranks_iff` — the ranks are right if and only if all names are among those of
  `get_teams`.
* `calc_player_ranks_accent` — a team whose players get no rank.
-/

namespace Zuckerserv

/-- `bool compare_player_score(const std::pair<int,int> & x, const std::pair<int,int> & y)`. -/
def comparePlayerScore (x y : Int × Nat) : Bool := x.1 > y.1

/-- `std::sort` with `compare_player_score`: the order of players with the same frags is open. -/
structure Sorter where
  sort : List (Int × Nat) → List (Int × Nat)
  perm : ∀ l, (sort l).Perm l
  sorted : ∀ l, (sort l).Pairwise fun x y => comparePlayerScore y x = false

namespace Standings

/-! ## The code -/

/-- The players that are compared: all, or those of a team. -/
def inGroup (team : Option Text) (c : Player) : Bool := ! c.spectator && team.all (c.team = ·)

/-- `players`: the frags and the places of the players. -/
def players (clients : List Player) (team : Option Text) : List (Int × Nat) :=
  (clients.zipIdx.filter fun c => inGroup team c.1).map fun c => (c.1.frags, c.2)

/-- The loop over the sorted players, with the frags of the last one. -/
def number : Option Int → Int → List (Int × Nat) → List Player → List Player
  | _, _, [], clients => clients
  | last, rank, (frags, i) :: players, clients =>
    let rank := rank + 1
    let rank := if last = some frags then rank - 1 else rank
    number (some frags) rank players (clients.modify i fun c => { c with rank := rank })

/-- `calc_player_ranks` without the teams. -/
def calcRanks (sorter : Sorter) (clients : List Player) (team : Option Text) : List Player :=
  number none 0 (sorter.sort (players clients team)) clients

/-- `static void calc_player_ranks(const char * team)`, called with `NULL`: what it makes of the
clients. -/
def calcPlayerRanks (sorter : Sorter) (s : Standings) : List Player :=
  if s.mEdit then s.clients
  else if s.mTeammode then
    s.getTeams.foldl (fun clients team => calcRanks sorter clients (some team)) s.clients
  else calcRanks sorter s.clients none

/-! ## One group -/

/-- The frags of the players in a group. -/
def frags (clients : List Player) (team : Option Text) : Finset Int :=
  ((clients.filter (inGroup team)).map Player.frags).toFinset

/-- A player of the group gets its rank. -/
def ranked (clients : List Player) (team : Option Text) (c : Player) : Player :=
  if inGroup team c then { c with rank := DenseRank.rank (frags clients team) c.frags } else c

/-- The counter of the loop and the rank that it assigns. -/
theorem number_cons (last : Option Int) (n : Nat) (v : Int) (i : Nat) (ps : List (Int × Nat))
    (clients : List Player) : number last n ((v, i) :: ps) clients =
      number (some v) ((if last = some v then n else n + 1 : Nat) : Int) ps
        (clients.modify i fun c =>
          { c with rank := ((if last = some v then n else n + 1 : Nat) : Int) }) := by
  rw [number]
  split
  · rw [Int.add_sub_cancel]
  · rfl

/-- A client that is not among the players keeps its rank. -/
theorem number_of_not_mem {j : Nat} {ps : List (Int × Nat)} (h : j ∉ ps.map Prod.snd)
    (last : Option Int) (n : Nat) (clients : List Player) :
    (number last n ps clients)[j]? = clients[j]? := by
  induction ps generalizing last n clients with
  | nil => rfl
  | cons p ps ih =>
    rw [List.map_cons, List.mem_cons, not_or] at h
    rw [number_cons, ih h.2, List.getElem?_modify_ne _ _ (Ne.symm h.1)]

/-- A client that is among the players gets the rank of its frags. -/
theorem number_of_mem {seen : Finset Int} {last : Option Int} {n : Nat}
    (hupto : DenseRank.Upto seen last n) {ps : List (Int × Nat)}
    (hsorted : ps.Pairwise fun x y => comparePlayerScore y x = false)
    (hseen : ∀ p ∈ ps, ∀ w ∈ seen, p.1 ≤ w) (hplaces : (ps.map Prod.snd).Nodup)
    {v : Int} {j : Nat} (h : (v, j) ∈ ps) (clients : List Player) :
    (number last n ps clients)[j]? = clients[j]?.map fun c =>
      { c with rank := DenseRank.rank (seen ∪ (ps.map Prod.fst).toFinset) v } := by
  induction ps generalizing seen last n clients with
  | nil => cases h
  | cons p ps ih =>
    obtain ⟨w, i⟩ := p
    rw [List.pairwise_cons] at hsorted
    rw [List.map_cons, List.nodup_cons] at hplaces
    have hbelow : ∀ q ∈ ps, q.1 ≤ w := fun q hq => by
      simpa [comparePlayerScore] using hsorted.1 q hq
    have hnext := hupto.next (v := w) (hseen (w, i) List.mem_cons_self)
    have hunion : seen ∪ (((w, i) :: ps).map Prod.fst).toFinset =
        insert w seen ∪ (ps.map Prod.fst).toFinset := by
      rw [List.map_cons, List.toFinset_cons, Finset.union_insert, Finset.insert_union]
    rw [number_cons, hunion]
    rcases List.mem_cons.mp h with heq | hmem
    · obtain ⟨rfl, rfl⟩ := Prod.mk.inj heq
      have hrest : ∀ u ∈ insert v seen ∪ (ps.map Prod.fst).toFinset, u ∉ insert v seen → u ≤ v := by
        intro u hu hnot
        rcases Finset.mem_union.mp hu with hu | hu
        · exact absurd hu hnot
        · obtain ⟨q, hq, rfl⟩ := List.mem_map.mp (List.mem_toFinset.mp hu)
          exact hbelow q hq
      have hrank := hnext.eq_rank Finset.subset_union_left hrest
      rw [number_of_not_mem hplaces.1, List.getElem?_modify_eq, hrank]
      rfl
    · have hne : i ≠ j := by
        rintro rfl
        exact hplaces.1 (List.mem_map.mpr ⟨_, hmem, rfl⟩)
      rw [ih hnext hsorted.2 (fun q hq u hu => ?_) hplaces.2 hmem, List.getElem?_modify_ne _ _ hne]
      rcases Finset.mem_insert.mp hu with rfl | hu
      · exact hbelow q hq
      · exact hseen q (List.mem_cons_of_mem _ hq) u hu

theorem mem_players {clients : List Player} {team : Option Text} {v : Int} {j : Nat} :
    (v, j) ∈ players clients team ↔
      ∃ c, clients[j]? = some c ∧ inGroup team c = true ∧ c.frags = v := by
  unfold players
  simp only [List.mem_map, List.mem_filter, Prod.mk.injEq, Prod.exists,
    List.mem_zipIdx_iff_getElem?]
  constructor
  · rintro ⟨c, i, ⟨hc, hgroup⟩, rfl, rfl⟩
    exact ⟨c, hc, hgroup, rfl⟩
  · rintro ⟨c, hc, hgroup, rfl⟩
    exact ⟨c, j, ⟨hc, hgroup⟩, rfl, rfl⟩

theorem players_nodup (clients : List Player) (team : Option Text) :
    ((players clients team).map Prod.snd).Nodup := by
  have hsub : ((players clients team).map Prod.snd).Sublist (clients.zipIdx.map Prod.snd) := by
    unfold players
    rw [List.map_map]
    exact List.filter_sublist.map Prod.snd
  refine hsub.nodup ?_
  rw [List.zipIdx_map_snd]
  exact List.nodup_range'

theorem mem_sort_players {sorter : Sorter} {clients : List Player} {team : Option Text} {v : Int}
    {j : Nat} : (v, j) ∈ sorter.sort (players clients team) ↔
      ∃ c, clients[j]? = some c ∧ inGroup team c = true ∧ c.frags = v :=
  (sorter.perm _).mem_iff.trans mem_players

/-- The frags of the sorted players are those of the group. -/
theorem toFinset_sort_players (sorter : Sorter) (clients : List Player) (team : Option Text) :
    ((sorter.sort (players clients team)).map Prod.fst).toFinset = frags clients team := by
  ext v
  simp only [frags, List.mem_toFinset, List.mem_map, List.mem_filter, Prod.exists,
    mem_sort_players]
  constructor
  · rintro ⟨w, j, ⟨c, hc, hgroup, rfl⟩, rfl⟩
    exact ⟨c, ⟨List.mem_of_getElem? hc, hgroup⟩, rfl⟩
  · rintro ⟨c, ⟨hc, hgroup⟩, rfl⟩
    obtain ⟨j, hj⟩ := List.getElem?_of_mem hc
    exact ⟨c.frags, j, ⟨c, hj, hgroup, rfl⟩, rfl⟩

/-- Who is in the group gets its rank, and nobody else changes. -/
theorem calcRanks_eq (sorter : Sorter) (clients : List Player) (team : Option Text) :
    calcRanks sorter clients team = clients.map (ranked clients team) := by
  have hplaces : ((sorter.sort (players clients team)).map Prod.snd).Nodup :=
    (((sorter.perm _).map Prod.snd).nodup_iff).mpr (players_nodup clients team)
  refine List.ext_getElem? fun j => ?_
  rw [List.getElem?_map]
  unfold calcRanks
  by_cases hmem : ∃ c, clients[j]? = some c ∧ inGroup team c = true
  · obtain ⟨c, hc, hgroup⟩ := hmem
    have hplayer : (c.frags, j) ∈ sorter.sort (players clients team) :=
      mem_sort_players.mpr ⟨c, hc, hgroup, rfl⟩
    have hnumber := number_of_mem DenseRank.upto_start (sorter.sorted _)
      (fun _ _ w hw => absurd hw (Finset.notMem_empty w)) hplaces hplayer clients
    rw [Finset.empty_union, toFinset_sort_players, hc] at hnumber
    rw [hc]
    refine hnumber.trans (congrArg some ?_)
    unfold ranked
    rw [if_pos hgroup]
  · have hnot : j ∉ (sorter.sort (players clients team)).map Prod.snd := by
      intro hj
      obtain ⟨⟨v, i⟩, hp, rfl⟩ := List.mem_map.mp hj
      obtain ⟨c, hc, hgroup, -⟩ := mem_sort_players.mp hp
      exact hmem ⟨c, hc, hgroup⟩
    refine (number_of_not_mem hnot none 0 clients).trans ?_
    cases hc : clients[j]? with
    | none => rfl
    | some c =>
      rw [Option.map_some]
      unfold ranked
      rw [if_neg fun hgroup => hmem ⟨c, hc, hgroup⟩]

/-! ## All groups -/

theorem inGroup_some {t : Text} {c : Player} :
    inGroup (some t) c = true ↔ c.spectator = false ∧ c.team = t := by
  simp [inGroup]

/-- Of a player nothing but its rank changes. -/
theorem ranked_eq (clients : List Player) (team : Option Text) (c : Player) :
    ∃ rank, ranked clients team c = { c with rank := rank } := by
  unfold ranked
  split
  · exact ⟨_, rfl⟩
  · exact ⟨c.rank, rfl⟩

/-- The rank of a player is no part of what the ranks are calculated from. -/
theorem frags_map_ranked (clients : List Player) (team team' : Option Text) :
    frags (clients.map (ranked clients team)) team' = frags clients team' := by
  have hsame (c : Player) : inGroup team' (ranked clients team c) = inGroup team' c ∧
      (ranked clients team c).frags = c.frags := by
    obtain ⟨rank, hrank⟩ := ranked_eq clients team c
    rw [hrank]
    exact ⟨rfl, rfl⟩
  unfold frags
  rw [List.filter_map, List.map_map]
  have hgroup : inGroup team' ∘ ranked clients team = inGroup team' := funext fun c => (hsame c).1
  have hfrags : Player.frags ∘ ranked clients team = Player.frags := funext fun c => (hsame c).2
  rw [hgroup, hfrags]

theorem ranked_congr {clients clients' : List Player} {team : Option Text}
    (h : frags clients team = frags clients' team) (c : Player) :
    ranked clients team c = ranked clients' team c := by
  unfold ranked
  rw [h]

/-- A player of one of the teams gets its rank in its team. -/
def teamRanked (clients : List Player) (teams : List Text) (c : Player) : Player :=
  if c.spectator = false ∧ c.team ∈ teams then ranked clients (some c.team) c else c

/-- To rank a player once more in its team changes nothing. -/
theorem ranked_ranked (clients : List Player) (t : Text) (c : Player) :
    ranked (clients.map (ranked clients (some t))) (some c.team) (ranked clients (some c.team) c) =
      ranked clients (some c.team) c := by
  rw [ranked_congr (frags_map_ranked clients (some t) (some c.team))]
  unfold ranked
  by_cases hgroup : inGroup (some c.team) c = true
  · rw [if_pos hgroup]
    exact if_pos hgroup
  · rw [if_neg hgroup, if_neg hgroup]

theorem foldl_calcRanks (sorter : Sorter) (teams : List Text) (clients : List Player) :
    teams.foldl (fun clients team => calcRanks sorter clients (some team)) clients =
      clients.map (teamRanked clients teams) := by
  induction teams generalizing clients with
  | nil =>
    have hid : teamRanked clients [] = id := funext fun c => if_neg fun h => List.not_mem_nil h.2
    rw [List.foldl_nil, hid, List.map_id]
  | cons t teams ih =>
    rw [List.foldl_cons, calcRanks_eq, ih, List.map_map]
    refine List.map_congr_left fun c _ => ?_
    have hsame : (ranked clients (some t) c).spectator = c.spectator ∧
        (ranked clients (some t) c).team = c.team := by
      obtain ⟨rank, hrank⟩ := ranked_eq clients (some t) c
      rw [hrank]
      exact ⟨rfl, rfl⟩
    show teamRanked _ teams (ranked clients (some t) c) = _
    unfold teamRanked
    rw [hsame.1, hsame.2]
    by_cases hteam : c.team = t
    · subst hteam
      rw [ranked_ranked, ite_self]
      by_cases hplays : c.spectator = false
      · rw [if_pos ⟨hplays, List.mem_cons_self⟩]
      · rw [if_neg fun h => hplays h.1]
        exact if_neg fun h => hplays (inGroup_some.mp h).1
    · have hkeep : ranked clients (some t) c = c := if_neg fun h => hteam (inGroup_some.mp h).2
      rw [hkeep]
      by_cases hmem : c.spectator = false ∧ c.team ∈ teams
      · rw [if_pos hmem, if_pos ⟨hmem.1, List.mem_cons_of_mem _ hmem.2⟩]
        exact ranked_congr (frags_map_ranked clients (some t) (some c.team)) c
      · rw [if_neg hmem, if_neg fun h => hmem ⟨h.1, List.mem_of_ne_of_mem hteam h.2⟩]

/-! ## Whether the ranks are right -/

theorem mem_getTeams {s : Standings} {t : Text} :
    t ∈ s.getTeams ↔ ∃ c ∈ s.clients, Text.encodeutf8 c.team = t := by
  simp [getTeams]

/-- The same clients, with other ranks before. -/
def withRanks (s : Standings) (old : Player → Int) : Standings :=
  { s with
    clients := s.clients.map fun c => { c with rank := old c }
    distinct := by
      rw [List.map_map]
      exact s.distinct }

/-- The players that a player is compared with: all, or its team. -/
def group (s : Standings) (c : Player) : Option Text := if s.mTeammode then some c.team else none

/-- Whatever ranks there were before, each player gets its dense rank among the players that it is
compared with. -/
def RightlyRanked (sorter : Sorter) (s : Standings) : Prop :=
  ∀ old : Player → Int, ∀ (i : Nat) (c : Player), s.clients[i]? = some c → c.spectator = false →
    (calcPlayerRanks sorter (s.withRanks old))[i]?.map Player.rank =
      some (DenseRank.rank (frags s.clients (s.group c)) c.frags : Int)

theorem frags_withRanks (s : Standings) (old : Player → Int) (team : Option Text) :
    frags (s.withRanks old).clients team = frags s.clients team := by
  show ((((s.clients.map fun c => { c with rank := old c }).filter _).map _).toFinset :
    Finset Int) = _
  rw [List.filter_map, List.map_map]
  rfl

theorem getTeams_withRanks (s : Standings) (old : Player → Int) :
    (s.withRanks old).getTeams = s.getTeams := by
  show (((s.clients.map fun c => { c with rank := old c }).map _).dedup).mergeSort _ = _
  rw [List.map_map]
  rfl

/-- The rank of a player after the calculation. -/
theorem calcPlayerRanks_getElem? (sorter : Sorter) {s : Standings} (hedit : s.mEdit = false)
    (old : Player → Int) {i : Nat} {c : Player} (hc : s.clients[i]? = some c)
    (hplays : c.spectator = false) :
    (calcPlayerRanks sorter (s.withRanks old))[i]?.map Player.rank =
      some (if s.mTeammode = true → c.team ∈ s.getTeams then
        (DenseRank.rank (frags s.clients (s.group c)) c.frags : Int) else old c) := by
  have hold : (s.withRanks old).clients[i]? = some { c with rank := old c } := by
    show (s.clients.map _)[i]? = _
    rw [List.getElem?_map, hc]
    rfl
  have hcalc : calcPlayerRanks sorter (s.withRanks old) = if s.mTeammode then
      (s.withRanks old).getTeams.foldl (fun clients team => calcRanks sorter clients (some team))
        (s.withRanks old).clients
      else calcRanks sorter (s.withRanks old).clients none :=
    if_neg (Bool.not_eq_true _ ▸ hedit)
  rw [hcalc]
  have hrank {team : Option Text} (hgroup : inGroup team c = true) :
      (ranked (s.withRanks old).clients team { c with rank := old c }).rank =
        (DenseRank.rank (frags s.clients team) c.frags : Int) := by
    rw [ranked_congr (s.frags_withRanks old team)]
    exact congrArg Player.rank (if_pos hgroup)
  by_cases hmode : s.mTeammode = true
  · rw [if_pos hmode, foldl_calcRanks, List.getElem?_map, hold, getTeams_withRanks]
    refine congrArg some ?_
    unfold teamRanked group
    rw [if_pos hmode]
    by_cases hteam : c.team ∈ s.getTeams
    · rw [if_pos ⟨hplays, hteam⟩, if_pos fun _ => hteam]
      exact hrank (inGroup_some.mpr ⟨hplays, rfl⟩)
    · rw [if_neg fun h => hteam h.2, if_neg fun h => hteam (h hmode)]
  · rw [if_neg hmode, calcRanks_eq, List.getElem?_map, hold, if_pos fun h => absurd h hmode]
    refine congrArg some ?_
    unfold group
    rw [if_neg hmode]
    exact hrank (by simp [inGroup, hplays])

/-- A player of a team that `get_teams` does not name gets no rank. -/
theorem not_rightlyRanked (sorter : Sorter) {s : Standings} (hedit : s.mEdit = false)
    (hmode : s.mTeammode = true) {c : Player} (hc : c ∈ s.clients) (hplays : c.spectator = false)
    (hteam : c.team ∉ s.getTeams) : ¬ s.RightlyRanked sorter := by
  intro hright
  obtain ⟨i, hi⟩ := List.getElem?_of_mem hc
  have hrank := hright (fun _ => 0) i c hi hplays
  rw [calcPlayerRanks_getElem? sorter hedit _ hi hplays, if_neg fun h => hteam (h hmode),
    Option.some_inj] at hrank
  unfold DenseRank.rank at hrank
  omega

/-- Outside of edit mode, the ranks are right if and only if in a mode with teams the name of each
player's team is, as it stands, among the names that `get_teams` has converted. -/
theorem calc_player_ranks_iff (sorter : Sorter) {s : Standings} (hedit : s.mEdit = false) :
    s.RightlyRanked sorter ↔ (s.mTeammode = true → ∀ c ∈ s.clients, c.spectator = false →
      ∃ d ∈ s.clients, Text.encodeutf8 d.team = c.team) := by
  constructor
  · intro hright hmode c hc hplays
    by_contra hno
    exact not_rightlyRanked sorter hedit hmode hc hplays (fun h => hno (mem_getTeams.mp h)) hright
  · intro hteams old i c hi hplays
    rw [calcPlayerRanks_getElem? sorter hedit _ hi hplays, if_pos fun hmode =>
      mem_getTeams.mpr (hteams hmode c (List.mem_of_getElem? hi) hplays)]

/-- A sort. -/
def stdSort : Sorter where
  sort := fun l => l.mergeSort fun x y => decide (y.1 ≤ x.1)
  perm := fun l => List.mergeSort_perm l _
  sorted := by
    intro l
    have hsorted : (l.mergeSort fun x y => decide (y.1 ≤ x.1)).Pairwise
        fun x y => decide (y.1 ≤ x.1) = true :=
      List.pairwise_mergeSort (fun x y z hxy hyz => by simp at *; omega)
        (fun x y => by simp; omega) l
    exact hsorted.imp fun h => by simpa [comparePlayerScore] using h

/-- Four players of two teams, with equal and different frags. -/
def fourPlayers : Standings where
  mEdit := false
  mTeammode := true
  clients := [⟨0, false, 5, 0, 0, 0, 0, [103], 0⟩, ⟨1, false, 7, 0, 0, 0, 0, [103], 0⟩,
    ⟨2, false, 5, 0, 0, 0, 0, [103], 0⟩, ⟨3, false, 5, 0, 0, 0, 0, [101], 0⟩]
  getTeamScore := fun _ => 0
  percent := fun hits shots => hits * 100 / shots
  distinct := by decide

theorem calc_player_ranks_iff_four : fourPlayers.RightlyRanked stdSort :=
  (calc_player_ranks_iff stdSort rfl).mpr (by decide)

/-- One player, whose team has a name of one character that is not ASCII. -/
def accent : Standings where
  mEdit := false
  mTeammode := true
  clients := [⟨0, false, 5, 0, 0, 0, 0, [1], 0⟩]
  getTeamScore := fun _ => 0
  percent := fun hits shots => hits * 100 / shots
  distinct := by decide

/-- The player of this team gets no rank: its name is not what it is converted to. -/
theorem calc_player_ranks_accent : accent.mEdit = false ∧ ¬ accent.RightlyRanked stdSort := by
  refine ⟨rfl, not_rightlyRanked stdSort rfl rfl List.mem_cons_self rfl ?_⟩
  rw [mem_getTeams]
  decide

end Standings

end Zuckerserv

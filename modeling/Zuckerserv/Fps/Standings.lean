import Mathlib.Data.Finset.Max
import Mathlib.Data.Finset.Image
import Mathlib.Data.List.Dedup
import Mathlib.Data.Prod.Lex
import Zuckerserv.Shared.Utf8

/-!
# Who is winning

The scripts ask whether a player wins (`hopmod/server_functions.cpp`): without teams, it wins unless
another one is ahead of it. One is ahead by more frags; with as many frags by fewer deaths; then by
a better accuracy; then by a lower ping.

* `Player`, `Standings` — the clients in the game.
* `getTeams`, `teamWin`, `playerWin` — the code.
* `key` — what the criteria compare, one after the other.
* `playerWin_eq` — who wins has the highest key.
* `player_win_spec` — there is a winner, and all winners are equal.
-/

namespace Zuckerserv

/-- The fields of `clientinfo` that the standings use. -/
structure Player where
  clientnum : Int
  /-- `state.state == CS_SPECTATOR`. -/
  spectator : Bool
  frags : Int
  deaths : Int
  shots : Int
  misses : Int
  ping : Int
  team : Text
  rank : Int
  deriving DecidableEq

/-- The clients in the game, and the mode. -/
structure Standings where
  mEdit : Bool
  mTeammode : Bool
  clients : List Player
  /-- `get_team_score`: each mode has its own. -/
  getTeamScore : Text → Int
  /-- `static_cast<int>(roundf(static_cast<float>(hits)/shots*100))`. -/
  percent : Int → Int → Int
  /-- The number of a client is its place in a table. -/
  distinct : (clients.map Player.clientnum).Nodup

namespace Standings

/-! ## The code -/

/-- `clientinfo * get_ci(int cn)`; `none` for an error of the script. -/
def getCi (s : Standings) (cn : Int) : Option Player := s.clients.find? (·.clientnum = cn)

/-- `int player_accuracy(int cn)`. -/
def playerAccuracy (s : Standings) (cn : Int) : Option Int := do
  let ci ← s.getCi cn
  let hits := ci.shots - ci.misses
  some (s.percent hits (max ci.shots 1))

/-- `std::vector<std::string> get_teams()`. -/
def getTeams (s : Standings) : List Text :=
  ((s.clients.map fun c => Text.encodeutf8 c.team).dedup).mergeSort fun a b => decide (a ≤ b)

/-- `int team_win(const char * team)`. -/
def teamWin (s : Standings) (team : Text) : Bool :=
  s.getTeams.all fun t => t = team ∨ ¬ s.getTeamScore t > s.getTeamScore team

/-- The loop of `player_win`, over the rest of the clients. -/
def unbeaten (s : Standings) (ci : Player) : List Player → Option Bool
  | [] => some true
  | c :: clients =>
    if c.clientnum = ci.clientnum ∨ c.spectator then unbeaten s ci clients
    else do
      let more_frags := c.frags > ci.frags
      let eq_frags := c.frags = ci.frags
      let less_deaths := c.deaths < ci.deaths
      let eq_deaths := c.deaths = ci.deaths
      let p1_acc ← s.playerAccuracy c.clientnum
      let p2_acc ← s.playerAccuracy ci.clientnum
      let better_acc := p1_acc > p2_acc
      let eq_acc := p1_acc = p2_acc
      let lower_ping := c.ping < ci.ping
      if more_frags ∨ (eq_frags ∧ less_deaths) ∨ (eq_frags ∧ eq_deaths ∧ better_acc) ∨
          (eq_frags ∧ eq_deaths ∧ eq_acc ∧ lower_ping) then some false
      else unbeaten s ci clients

/-- `int player_win(int cn)`. -/
def playerWin (s : Standings) (cn : Int) : Option Bool := do
  let ci ← s.getCi cn
  if ¬ s.mTeammode then s.unbeaten ci s.clients else some (s.teamWin ci.team)

/-! ## Who is ahead -/

/-- The accuracy of a player. -/
def accuracy (s : Standings) (c : Player) : Int := s.percent (c.shots - c.misses) (max c.shots 1)

/-- What the criteria compare, one after the other. -/
def key (s : Standings) (c : Player) : Int ×ₗ Int ×ₗ Int ×ₗ Int :=
  toLex (c.frags, toLex (-c.deaths, toLex (s.accuracy c, -c.ping)))

theorem key_lt_iff (s : Standings) (c d : Player) : s.key c < s.key d ↔
    d.frags > c.frags ∨ (d.frags = c.frags ∧ d.deaths < c.deaths) ∨
      (d.frags = c.frags ∧ d.deaths = c.deaths ∧ s.accuracy d > s.accuracy c) ∨
      (d.frags = c.frags ∧ d.deaths = c.deaths ∧ s.accuracy d = s.accuracy c ∧
        d.ping < c.ping) := by
  unfold key
  rw [Prod.Lex.toLex_lt_toLex, Prod.Lex.toLex_lt_toLex, Prod.Lex.toLex_lt_toLex]
  dsimp only
  omega

theorem key_inj {s : Standings} {c d : Player} (h : s.key c = s.key d) :
    c.frags = d.frags ∧ c.deaths = d.deaths ∧ s.accuracy c = s.accuracy d ∧ c.ping = d.ping := by
  unfold key at h
  simp only [EmbeddingLike.apply_eq_iff_eq, Prod.mk.injEq] at h
  omega

/-- A client of the game is found by its number. -/
theorem getCi_of_mem {s : Standings} {c : Player} (h : c ∈ s.clients) :
    s.getCi c.clientnum = some c := by
  unfold getCi
  have hsome : (s.clients.find? (·.clientnum = c.clientnum)).isSome = true :=
    List.find?_isSome.mpr ⟨c, h, by simp⟩
  obtain ⟨d, hd⟩ := Option.isSome_iff_exists.mp hsome
  have hnum : d.clientnum = c.clientnum := by simpa using List.find?_some hd
  rw [hd, List.inj_on_of_nodup_map s.distinct (List.mem_of_find?_eq_some hd) h hnum]

theorem playerAccuracy_of_mem {s : Standings} {c : Player} (h : c ∈ s.clients) :
    s.playerAccuracy c.clientnum = some (s.accuracy c) := by
  unfold playerAccuracy
  rw [getCi_of_mem h]
  rfl

/-- The loop finds a client that is ahead, if there is one. -/
theorem unbeaten_eq {s : Standings} {ci : Player} (hci : ci ∈ s.clients) {clients : List Player}
    (h : ∀ c ∈ clients, c ∈ s.clients) : s.unbeaten ci clients =
      some (decide (∀ c ∈ clients, c.spectator = false → ¬ s.key ci < s.key c)) := by
  induction clients with
  | nil => simp [unbeaten]
  | cons c clients ih =>
    have hc := h c List.mem_cons_self
    have ih := ih fun d hd => h d (List.mem_cons_of_mem _ hd)
    rw [unbeaten]
    simp only [List.forall_mem_cons]
    by_cases hskip : c.clientnum = ci.clientnum ∨ c.spectator = true
    · have hahead : c.spectator = false → ¬ s.key ci < s.key c := by
        intro hspectator
        rcases hskip with hself | hspec
        · rw [List.inj_on_of_nodup_map s.distinct hc hci hself]
          exact lt_irrefl _
        · rw [hspectator] at hspec
          cases hspec
      rw [if_pos hskip, ih]
      exact congrArg some (decide_eq_decide.mpr (and_iff_right hahead).symm)
    · rw [if_neg hskip, playerAccuracy_of_mem hc, playerAccuracy_of_mem hci]
      rw [not_or, Bool.not_eq_true] at hskip
      have hlt := s.key_lt_iff ci c
      dsimp only [Option.bind_eq_bind, Option.bind_some]
      by_cases hahead : s.key ci < s.key c
      · rw [if_pos (hlt.mp hahead)]
        exact congrArg some (decide_eq_false fun hall => hall.1 hskip.2 hahead).symm
      · rw [if_neg fun h => hahead (hlt.mpr h), ih]
        exact congrArg some (decide_eq_decide.mpr (and_iff_right fun _ => hahead).symm)

/-- Without teams, a client wins if no other player is ahead of it. -/
theorem playerWin_eq {s : Standings} (hmode : s.mTeammode = false) {ci : Player}
    (hci : ci ∈ s.clients) : s.playerWin ci.clientnum = some true ↔
      ∀ c ∈ s.clients, c.spectator = false → ¬ s.key ci < s.key c := by
  unfold playerWin
  rw [getCi_of_mem hci]
  dsimp only [Option.bind_eq_bind, Option.bind_some]
  rw [if_pos (by rw [hmode]; exact Bool.false_ne_true), unbeaten_eq hci fun _ h => h,
    Option.some_inj, decide_eq_true_iff]

/-- Without teams: when somebody plays, one who plays is a winner, and all winners who play have
the same frags, deaths, accuracy and ping. -/
theorem player_win_spec {s : Standings} (hmode : s.mTeammode = false)
    (hplayer : ∃ c ∈ s.clients, c.spectator = false) :
    (∃ c ∈ s.clients, c.spectator = false ∧ s.playerWin c.clientnum = some true) ∧
    ∀ c ∈ s.clients, ∀ d ∈ s.clients, c.spectator = false → d.spectator = false →
      s.playerWin c.clientnum = some true → s.playerWin d.clientnum = some true →
      c.frags = d.frags ∧ c.deaths = d.deaths ∧
        s.playerAccuracy c.clientnum = s.playerAccuracy d.clientnum ∧ c.ping = d.ping := by
  constructor
  · obtain ⟨c, hc, hplays⟩ := hplayer
    have hmem (d : Player) : d ∈ (s.clients.filter fun d => d.spectator = false).toFinset ↔
        d ∈ s.clients ∧ d.spectator = false := by simp
    obtain ⟨best, hbest, hmax⟩ :=
      Finset.exists_max_image _ s.key ⟨c, (hmem c).mpr ⟨hc, hplays⟩⟩
    obtain ⟨hbest, hbestplays⟩ := (hmem best).mp hbest
    refine ⟨best, hbest, hbestplays, (playerWin_eq hmode hbest).mpr fun d hd hdplays => ?_⟩
    exact not_lt.mpr (hmax d ((hmem d).mpr ⟨hd, hdplays⟩))
  · intro c hc d hd hcplays hdplays hcwins hdwins
    have hle := not_lt.mp ((playerWin_eq hmode hc).mp hcwins d hd hdplays)
    have hge := not_lt.mp ((playerWin_eq hmode hd).mp hdwins c hc hcplays)
    obtain ⟨hfrags, hdeaths, haccuracy, hping⟩ := key_inj (le_antisymm hge hle)
    rw [playerAccuracy_of_mem hc, playerAccuracy_of_mem hd, haccuracy]
    exact ⟨hfrags, hdeaths, rfl, hping⟩

/-- Two players that differ in their pings, and one that watches. -/
def duel : Standings where
  mEdit := false
  mTeammode := false
  clients := [⟨0, false, 3, 1, 10, 5, 40, [], 0⟩, ⟨1, false, 3, 1, 20, 10, 30, [], 0⟩,
    ⟨2, true, 9, 0, 0, 0, 0, [], 0⟩]
  getTeamScore := fun _ => 0
  percent := fun hits shots => hits * 100 / shots
  distinct := by decide

theorem player_win_spec_duel :
    (∃ c ∈ duel.clients, c.spectator = false ∧ duel.playerWin c.clientnum = some true) ∧
    ∀ c ∈ duel.clients, ∀ d ∈ duel.clients, c.spectator = false → d.spectator = false →
      duel.playerWin c.clientnum = some true → duel.playerWin d.clientnum = some true →
      c.frags = d.frags ∧ c.deaths = d.deaths ∧
        duel.playerAccuracy c.clientnum = duel.playerAccuracy d.clientnum ∧ c.ping = d.ping :=
  player_win_spec rfl ⟨⟨0, false, 3, 1, 10, 5, 40, [], 0⟩, by decide, rfl⟩

end Standings

end Zuckerserv

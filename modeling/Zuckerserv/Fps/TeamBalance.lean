import Mathlib.Data.List.Sort
import Zuckerserv.Fps.TeamTallies
import Zuckerserv.Lib.Census
import Zuckerserv.Lib.Loop
import Zuckerserv.Lib.Sweep

/-!
# Balanced teams

Bots are moved from the largest team to the smallest one. The sizes are kept in an array that is
sorted only once, and that a bot's team is read from after the entries have been swapped; and the
name of an entry is not a copy, but the buffer of the first client of that team.

* `calcteams`, `iterate`, `balanceteams` — the array, a round of the loop, and the whole of it.
* `Tracked`, `Balanced` — the sizes in the array are real, and the teams of the bots are not too
  large.
* `Clear` — a round that moves a bot between teams that are strictly larger and smaller than the
  others, by their names.
* `teams_balanced` — rounds that are clear keep the sizes, and balance the teams.
* `three_in_one` — otherwise the bots can come to the wrong team.
-/

namespace Zuckerserv

namespace TeamBalance

open Text Teams Census Loop

/-- The clients, with the bots; these cannot be spectators. -/
structure Roster where
  clients : List Nat
  /-- `bots`, without `NULL`. -/
  bots : List Nat
  /-- `state.state == CS_SPECTATOR`. -/
  spectator : Nat → Bool
  clients_nodup : clients.Nodup
  bots_nodup : bots.Nodup
  bots_play : ∀ b ∈ bots, b ∈ clients ∧ spectator b = false

/-- The `team` of a `teamscore`: a pointer to the buffer of a client, or to a constant. -/
inductive Label
  | client (i : Nat)
  | fixed (name : Text)
  deriving DecidableEq

/-- `struct teamscore`. -/
structure TeamScore where
  team : Label
  score : Nat
  deriving DecidableEq

/-- What a pointer points to, where `team` are the buffers of the clients. -/
def TeamScore.name (team : Nat → Text) (t : TeamScore) : Text :=
  match t.team with
  | .client i => team i
  | .fixed name => name

/-! ## The array -/

/-- `static bool compare(const teamscore &x, const teamscore &y)`. -/
def compare (team : Nat → Text) (x y : TeamScore) : Prop :=
  y.score < x.score ∨ x.score = y.score ∧ x.name team < y.name team

instance (team : Nat → Text) (x y : TeamScore) : Decidable (compare team x y) :=
  inferInstanceAs (Decidable (_ ∨ _ ∧ _))

/-- The client is counted for its team. -/
def count (team : Nat → Text) (i : Nat) : List TeamScore → List TeamScore
  | [] => [⟨.client i, 1⟩]
  | t :: teams =>
    if t.name team = team i then { t with score := t.score + 1 } :: teams
    else t :: count team i teams

/-- The first loop of `calcteams`. -/
def tally (spectator : Nat → Bool) (team : Nat → Text) (clients : List Nat) : List TeamScore :=
  clients.foldl (fun teams i =>
    if spectator i = true ∨ team i = [] then teams else count team i teams) []

/-- A default team is added, unless `htfind` finds it. -/
def addDefault (team : Nat → Text) (teams : List TeamScore) (name : Text) : List TeamScore :=
  if name ∈ teams.map (TeamScore.name team) then teams else teams ++ [⟨.fixed name, 0⟩]

/-- `void calcteams(vector<teamscore> &teams)`. -/
def calcteams (p : Roster) (team : Nat → Text) : List TeamScore :=
  let teams := (tally p.spectator team p.clients).insertionSort fun x y => ¬ compare team y x
  if teams.length < 2 then [Tallies.good, Tallies.evil].foldl (addDefault team) teams else teams

/-! ## The loop -/

/-- The buffers of the clients, the array, and the bots that can be moved. -/
structure State where
  team : Nat → Text
  teams : List TeamScore
  reassign : List Nat

/-- The names in the array. -/
def State.names (s : State) : List Text := s.teams.map (TeamScore.name s.team)

/-- The swaps: the last entry `t` goes forward. The entries are given from the last to the first. -/
def sink (t : TeamScore) : List TeamScore → List TeamScore
  | [] => [t]
  | x :: teams => if t.score ≤ x.score then t :: x :: teams else x :: sink t teams

/-- `teams[0].score--`, `t.score++`, and the swaps, from the last entry to the first. -/
def transfer (front : TeamScore) (rest : List TeamScore) : List TeamScore :=
  match rest.reverse with
  | [] => [front]
  | t :: before =>
    sink { t with score := t.score + 1 } (before ++ [{ front with score := front.score - 1 }])

/-- The index of the first bot in the team. -/
def State.find (s : State) (front : TeamScore) : Option Nat :=
  s.reassign.findIdx? fun b => s.team b = front.name s.team

/-- One round of the loop. The reference `t` is to the last place of the array. -/
def iterate (s : State) : State :=
  match s.teams with
  | [] => s
  | front :: rest =>
    match s.find front with
    | none => { s with teams := rest }
    | some i =>
      match s.reassign[i]?, transfer front rest with
      | some bot, t :: teams =>
        { team := Function.update s.team bot (copystring (MAXTEAMLEN + 1) (t.name s.team))
          teams := (t :: teams).reverse
          reassign := Sweep.removeunordered s.reassign i }
      | _, _ => s

/-- `teams[0].score > teams.last().score + 1`. -/
def uneven : List TeamScore → Bool
  | [] => false
  | front :: rest => (rest.getLastD front).score + 1 < front.score

/-- The condition of the loop. -/
def State.More (s : State) : Prop := s.reassign ≠ [] ∧ uneven s.teams = true

instance : DecidablePred State.More := fun _ => inferInstanceAs (Decidable (_ ∧ _))

/-- The loop begins. -/
def begin (p : Roster) (team : Nat → Text) : State := ⟨team, calcteams p team, p.bots⟩

/-- The loop, for so many rounds. -/
def rounds (p : Roster) (team : Nat → Text) (n : Nat) : State :=
  whileDo State.More iterate n (begin p team)

/-- `void balanceteams()`: a round takes a bot from those that can be moved, or a team. -/
def balanceteams (p : Roster) (team : Nat → Text) : State :=
  rounds p team ((calcteams p team).length + p.bots.length + 1)

/-! ## The properties -/

/-- The team of a client that is counted. -/
def Roster.key (p : Roster) (team : Nat → Text) (i : Nat) : Option Text :=
  if p.spectator i = true ∨ team i = [] then none else some (team i)

/-- The size of a team. -/
def Roster.heads (p : Roster) (team : Nat → Text) (name : Text) : Nat :=
  census p.clients (p.key team) name

/-- The sizes in the array are those of the teams. -/
def Tracked (p : Roster) (s : State) : Prop :=
  ∀ t ∈ s.teams, t.score = p.heads s.team (t.name s.team)

/-- The team of a bot has at most one member more than each of the teams. -/
def Balanced (p : Roster) (team : Nat → Text) (names : List Text) : Prop :=
  ∀ b ∈ p.bots, team b ≠ [] → ∀ name ∈ names, p.heads team (team b) ≤ p.heads team name + 1

/-- A round that moves a bot: its own buffer is not the name of the first entry, and the name of the
last one fits into it; and the teams between are larger than the last one, and smaller than the
first one. -/
def Clear (s : State) : Prop :=
  ∀ front mid last, s.teams = front :: (mid ++ [last]) →
    ∀ i bot, s.find front = some i → s.reassign[i]? = some bot →
      front.team ≠ .client bot ∧ (last.name s.team).length ≤ MAXTEAMLEN ∧
        ∀ t ∈ mid, last.score < t.score ∧ t.score < front.score

/-! ## The array when the loop begins -/

section Calcteams

variable {p : Roster} {team : Nat → Text} {teams : List TeamScore} {i : Nat} {l : List Nat}

@[simp] theorem name_score (t : TeamScore) (n : Nat) :
    TeamScore.name team { t with score := n } = t.name team := rfl

theorem names_count : (count team i teams).map (TeamScore.name team) =
    if team i ∈ teams.map (TeamScore.name team) then teams.map (TeamScore.name team)
    else teams.map (TeamScore.name team) ++ [team i] := by
  induction teams with
  | nil => rfl
  | cons t teams ih =>
    unfold count
    by_cases ht : t.name team = team i
    · simp [ht]
    · have hne : team i ≠ t.name team := fun h => ht h.symm
      simp only [if_neg ht, List.map_cons, ih, List.mem_cons, hne, false_or]
      split <;> rfl

/-- An entry after a client has been counted: of another team, or with one member more. -/
theorem mem_count (hnodup : (teams.map (TeamScore.name team)).Nodup) {t : TeamScore}
    (ht : t ∈ count team i teams) :
    t.name team ≠ team i ∧ t ∈ teams ∨ t.name team = team i ∧
      ((∃ u ∈ teams, u.name team = team i ∧ t.score = u.score + 1) ∨
        team i ∉ teams.map (TeamScore.name team) ∧ t.score = 1) := by
  induction teams with
  | nil =>
    obtain rfl := List.mem_singleton.mp ht
    exact .inr ⟨rfl, .inr ⟨List.not_mem_nil, rfl⟩⟩
  | cons u teams ih =>
    rw [List.map_cons, List.nodup_cons] at hnodup
    unfold count at ht
    split at ht
    · next hu =>
      rcases List.mem_cons.mp ht with rfl | ht
      · exact .inr ⟨hu, .inl ⟨u, List.mem_cons_self, hu, rfl⟩⟩
      · refine .inl ⟨fun hname => hnodup.1 ?_, List.mem_cons_of_mem _ ht⟩
        rw [hu, ← hname]
        exact List.mem_map_of_mem ht
    · next hu =>
      rcases List.mem_cons.mp ht with rfl | ht
      · exact .inl ⟨hu, List.mem_cons_self⟩
      · rcases ih hnodup.2 ht with ⟨hne, ht⟩ | ⟨hname, ⟨v, hv, hv'⟩ | ⟨hnot, hone⟩⟩
        · exact .inl ⟨hne, List.mem_cons_of_mem _ ht⟩
        · exact .inr ⟨hname, .inl ⟨v, List.mem_cons_of_mem _ hv, hv'⟩⟩
        · refine .inr ⟨hname, .inr ⟨?_, hone⟩⟩
          rw [List.map_cons, List.mem_cons, not_or]
          exact ⟨fun h => hu h.symm, hnot⟩

/-- The array has the teams of the clients, with their sizes. -/
structure Counts (p : Roster) (team : Nat → Text) (l : List Nat) (teams : List TeamScore) :
    Prop where
  nodup : (teams.map (TeamScore.name team)).Nodup
  score : ∀ t ∈ teams, t.score = census l (p.key team) (t.name team)
  named : ∀ i ∈ l, ∀ name, p.key team i = some name → name ∈ teams.map (TeamScore.name team)
  proper : [] ∉ teams.map (TeamScore.name team)

theorem Counts.count (h : Counts p team l teams) (hkey : p.key team i = some (team i))
    (hproper : team i ≠ []) : Counts p team (l ++ [i]) (count team i teams) := by
  have hcensus (name : Text) : census (l ++ [i]) (p.key team) name =
      census l (p.key team) name + if team i = name then 1 else 0 := by
    rw [census_concat, hkey, one]
    simp only [Option.some.injEq]
  have hmem {name : Text} : name ∈ (TeamBalance.count team i teams).map (TeamScore.name team) ↔
      name ∈ teams.map (TeamScore.name team) ∨ name = team i := by
    rw [names_count]
    split
    · next hi => exact ⟨.inl, fun hname => hname.elim id fun heq => heq ▸ hi⟩
    · rw [List.mem_append, List.mem_singleton]
  refine ⟨?_, ?_, ?_, ?_⟩
  · rw [names_count]
    split
    · exact h.nodup
    · next hi =>
      refine List.nodup_append.mpr ⟨h.nodup, List.nodup_singleton _, fun a ha b hb heq => hi ?_⟩
      rwa [← List.mem_singleton.mp hb, ← heq]
  · intro t ht
    rcases mem_count h.nodup ht with ⟨hne, ht⟩ | ⟨hname, ⟨u, hu, hname', hscore⟩ | ⟨hnot, hone⟩⟩
    · rw [hcensus, if_neg fun heq => hne heq.symm]
      exact h.score t ht
    · rw [hcensus, if_pos hname.symm, hscore, h.score u hu, hname, hname']
    · rw [hcensus, if_pos hname.symm, hone, hname]
      have hzero : census l (p.key team) (team i) = 0 := by
        refine List.countP_eq_zero.mpr fun j hj hkey => hnot ?_
        exact h.named j hj _ (of_decide_eq_true hkey)
      rw [hzero]
  · intro j hj name hname
    rcases List.mem_append.mp hj with hj | hj
    · exact hmem.mpr (.inl (h.named j hj name hname))
    · rw [List.mem_singleton.mp hj, hkey] at hname
      exact hmem.mpr (.inr (Option.some.inj hname).symm)
  · intro hnil
    rcases hmem.mp hnil with hnil | hnil
    · exact h.proper hnil
    · exact hproper hnil.symm

theorem Counts.skip (h : Counts p team l teams) (hkey : p.key team i = none) :
    Counts p team (l ++ [i]) teams := by
  refine ⟨h.nodup, fun t ht => ?_, fun j hj name hname => ?_, h.proper⟩
  · rw [census_concat, hkey, one_none]
    exact h.score t ht
  · rcases List.mem_append.mp hj with hj | hj
    · exact h.named j hj name hname
    · rw [List.mem_singleton.mp hj, hkey] at hname
      exact absurd hname nofun

theorem counts_tally (p : Roster) (team : Nat → Text) (l : List Nat) :
    Counts p team l (tally p.spectator team l) := by
  induction l using List.reverseRecOn with
  | nil => exact ⟨List.nodup_nil, nofun, nofun, List.not_mem_nil⟩
  | append_singleton l i ih =>
    rw [tally, List.foldl_append]
    change Counts p team (l ++ [i]) (if _ then tally p.spectator team l else
      TeamBalance.count team i (tally p.spectator team l))
    split
    · next hskip => exact ih.skip (if_pos hskip)
    · next hcount => exact ih.count (if_neg hcount) fun hnil => hcount (.inr hnil)

theorem Counts.perm (h : Counts p team l teams) {teams' : List TeamScore}
    (hperm : teams'.Perm teams) : Counts p team l teams' := by
  have hnames := hperm.map (TeamScore.name team)
  exact ⟨hnames.nodup_iff.mpr h.nodup, fun t ht => h.score t (hperm.mem_iff.mp ht),
    fun i hi name hname => hnames.mem_iff.mpr (h.named i hi name hname),
    fun hnil => h.proper (hnames.mem_iff.mp hnil)⟩

theorem Counts.addDefault (h : Counts p team l teams) {name : Text} (hname : name ≠ []) :
    Counts p team l (addDefault team teams name) := by
  unfold TeamBalance.addDefault
  split
  · exact h
  · next hnot =>
    have hmap : (teams ++ [(⟨.fixed name, 0⟩ : TeamScore)]).map (TeamScore.name team) =
        teams.map (TeamScore.name team) ++ [name] := List.map_append
    refine ⟨?_, fun t ht => ?_, fun i hi name' hname' => ?_, fun hnil => ?_⟩
    · rw [hmap]
      refine List.nodup_append.mpr ⟨h.nodup, List.nodup_singleton _, fun a ha b hb heq => hnot ?_⟩
      rwa [← List.mem_singleton.mp hb, ← heq]
    · rcases List.mem_append.mp ht with ht | ht
      · exact h.score t ht
      · obtain rfl := List.mem_singleton.mp ht
        refine (List.countP_eq_zero.mpr fun j hj hkey => hnot ?_).symm
        exact h.named j hj _ (of_decide_eq_true hkey)
    · rw [hmap]
      exact List.mem_append_left _ (h.named i hi name' hname')
    · rw [hmap, List.mem_append, List.mem_singleton] at hnil
      exact hnil.elim h.proper fun heq => hname heq.symm

/-- The larger teams come first. -/
def Descending (teams : List TeamScore) : Prop := teams.Pairwise fun x y => y.score ≤ x.score

theorem Descending.addDefault (h : Descending teams) (name : Text) :
    Descending (addDefault team teams name) := by
  unfold TeamBalance.addDefault
  split
  · exact h
  · refine List.pairwise_append.mpr ⟨h, List.pairwise_singleton .., fun x _ y hy => ?_⟩
    rw [List.mem_singleton.mp hy]
    exact Nat.zero_le _

theorem descending_orderedInsert (t : TeamScore) (h : Descending teams) :
    Descending (teams.orderedInsert (fun x y => ¬ compare team y x) t) := by
  induction teams with
  | nil => exact List.pairwise_singleton ..
  | cons u teams ih =>
    obtain ⟨hu, hteams⟩ := List.pairwise_cons.mp h
    rw [List.orderedInsert_cons]
    split
    · next hcompare =>
      have hle : u.score ≤ t.score := Nat.le_of_not_lt fun hlt => hcompare (.inl hlt)
      refine List.pairwise_cons.mpr ⟨fun x hx => ?_, h⟩
      rcases List.mem_cons.mp hx with rfl | hx
      · exact hle
      · exact Nat.le_trans (hu x hx) hle
    · next hcompare =>
      have hle : t.score ≤ u.score := by
        rcases Decidable.not_not.mp hcompare with hlt | ⟨heq, -⟩
        · exact Nat.le_of_lt hlt
        · exact Nat.le_of_eq heq.symm
      refine List.pairwise_cons.mpr ⟨fun x hx => ?_, ih hteams⟩
      rcases List.mem_cons.mp ((List.perm_orderedInsert _ t teams).mem_iff.mp hx) with rfl | hx
      · exact hle
      · exact hu x hx

theorem descending_insertionSort (team : Nat → Text) (teams : List TeamScore) :
    Descending (teams.insertionSort fun x y => ¬ compare team y x) := by
  induction teams with
  | nil => exact List.Pairwise.nil
  | cons t teams ih => exact descending_orderedInsert t ih

theorem mem_addDefault (team : Nat → Text) (teams : List TeamScore) (name name' : Text) :
    name' ∈ (addDefault team teams name).map (TeamScore.name team) ↔
      name' ∈ teams.map (TeamScore.name team) ∨ name' = name := by
  unfold addDefault
  split
  · next hname => exact ⟨.inl, fun h => h.elim id fun heq => heq ▸ hname⟩
  · rw [List.map_append, List.mem_append]
    exact or_congr_right List.mem_singleton

/-- The array that the loop begins with: the real sizes, from the largest to the smallest. -/
theorem calcteams_spec (p : Roster) (team : Nat → Text) :
    Counts p team p.clients (calcteams p team) ∧ Descending (calcteams p team) ∧
      calcteams p team ≠ [] := by
  have hcounts := (counts_tally p team p.clients).perm
    (List.perm_insertionSort (fun x y => ¬ compare team y x) _)
  have hdescending := descending_insertionSort team (tally p.spectator team p.clients)
  unfold calcteams
  dsimp only
  split
  · refine ⟨(hcounts.addDefault (by decide)).addDefault (by decide),
      (hdescending.addDefault _).addDefault _, fun hnil => ?_⟩
    have hmem := (mem_addDefault team (addDefault team
      ((tally p.spectator team p.clients).insertionSort fun x y => ¬ compare team y x)
      Tallies.good) Tallies.evil Tallies.evil).mpr (.inr rfl)
    have hnil' : addDefault team (addDefault team
      ((tally p.spectator team p.clients).insertionSort fun x y => ¬ compare team y x)
      Tallies.good) Tallies.evil = [] := hnil
    rw [hnil'] at hmem
    exact List.not_mem_nil hmem
  · next hlength =>
    refine ⟨hcounts, hdescending, fun hnil => hlength ?_⟩
    rw [hnil]
    exact Nat.zero_lt_two

end Calcteams

/-! ## A round -/

section Rounds

variable {p : Roster} {s : State} {front last : TeamScore} {mid : List TeamScore}

theorem find_none (h : s.find front = none) : ∀ b ∈ s.reassign, s.team b ≠ front.name s.team := by
  intro b hb
  have hall := List.findIdx?_eq_none_iff.mp h b hb
  exact of_decide_eq_false hall

theorem find_some {i : Nat} (h : s.find front = some i) :
    ∃ bot, s.reassign[i]? = some bot ∧ s.team bot = front.name s.team := by
  obtain ⟨hi, hbot, -⟩ := List.findIdx?_eq_some_iff_getElem.mp h
  exact ⟨s.reassign[i], List.getElem?_eq_getElem hi, of_decide_eq_true hbot⟩

theorem uneven_spec {teams : List TeamScore} (h : uneven teams = true) :
    ∃ front mid last, teams = front :: (mid ++ [last]) ∧ last.score + 1 < front.score := by
  cases teams with
  | nil => exact absurd h nofun
  | cons front rest =>
    have hscore : (rest.getLastD front).score + 1 < front.score := of_decide_eq_true h
    rcases List.eq_nil_or_concat rest with rfl | ⟨mid, last, rfl⟩
    · exact absurd hscore (by simp)
    · rw [List.concat_eq_append, List.getLastD_concat] at hscore
      exact ⟨front, mid, last, by rw [List.concat_eq_append], hscore⟩

theorem even_spec {before : List TeamScore} (hdescending : Descending (before ++ [last]))
    (h : uneven (before ++ [last]) = false) :
    ∀ t ∈ before ++ [last], t.score ≤ last.score + 1 := by
  intro t ht
  cases before with
  | nil =>
    rw [List.mem_singleton.mp ht]
    exact Nat.le_succ _
  | cons front mid =>
    have hscore : ¬ ((mid ++ [last]).getLastD front).score + 1 < front.score :=
      of_decide_eq_false h
    rw [List.getLastD_concat] at hscore
    rcases List.mem_cons.mp ht with rfl | ht
    · exact Nat.le_of_not_lt hscore
    · exact Nat.le_trans ((List.pairwise_cons.mp hdescending).1 t ht) (Nat.le_of_not_lt hscore)

theorem length_sink (t : TeamScore) (teams : List TeamScore) :
    (sink t teams).length = teams.length + 1 := by
  induction teams with
  | nil => rfl
  | cons x teams ih =>
    unfold sink
    split
    · rfl
    · rw [List.length_cons, ih, List.length_cons]

theorem length_transfer (front : TeamScore) (rest : List TeamScore) :
    (transfer front rest).length = rest.length + 1 := by
  have hlength : rest.reverse.length = rest.length := List.length_reverse
  rw [← hlength, transfer]
  cases rest.reverse with
  | nil => rfl
  | cons t before =>
    dsimp only
    rw [length_sink, List.length_append]
    rfl

/-- Where the last entry stays behind the others, nothing is swapped. -/
theorem transfer_eq (hgap : last.score + 1 < front.score)
    (hmid : ∀ t ∈ mid, last.score < t.score) :
    transfer front (mid ++ [last]) = { last with score := last.score + 1 } ::
      (mid.reverse ++ [{ front with score := front.score - 1 }]) := by
  have hsink (t : TeamScore) (teams : List TeamScore) (h : ∀ x ∈ teams.head?, t.score ≤ x.score) :
      sink t teams = t :: teams := by
    cases teams with
    | nil => rfl
    | cons x teams => exact if_pos (h x rfl)
  rw [transfer, List.reverse_append]
  refine hsink _ _ fun x hx => ?_
  rcases List.mem_append.mp (List.mem_of_mem_head? hx) with hx | hx
  · exact hmid x (List.mem_reverse.mp hx)
  · rw [List.mem_singleton.mp hx]
    exact Nat.le_sub_one_of_lt hgap

/-- A round takes the first team away, or moves one of its bots. -/
theorem iterate_cases (hteams : s.teams = front :: (mid ++ [last]))
    (hgap : last.score + 1 < front.score) (hclear : Clear s) :
    (s.find front = none ∧ iterate s = { s with teams := mid ++ [last] }) ∨
      ∃ i bot, s.reassign[i]? = some bot ∧ s.team bot = front.name s.team ∧
        front.team ≠ .client bot ∧ (∀ t ∈ mid, last.score < t.score ∧ t.score < front.score) ∧
        iterate s = {
          team := Function.update s.team bot (last.name s.team)
          teams := { front with score := front.score - 1 } ::
            (mid ++ [{ last with score := last.score + 1 }])
          reassign := Sweep.removeunordered s.reassign i } := by
  unfold iterate
  rw [hteams]
  dsimp only
  cases hfind : s.find front with
  | none => exact .inl ⟨rfl, rfl⟩
  | some i =>
    obtain ⟨bot, hbot, hteam⟩ := find_some hfind
    obtain ⟨hlabel, hlength, hmid⟩ := hclear front mid last hteams i bot hfind hbot
    refine .inr ⟨i, bot, hbot, hteam, hlabel, hmid, ?_⟩
    dsimp only
    rw [hbot, transfer_eq hgap fun t ht => (hmid t ht).1]
    dsimp only
    rw [name_score, copystring_eq_self hlength]
    simp

/-- Every round has fewer teams, or fewer bots that can be moved. -/
theorem iterate_lt (h : s.More) :
    (iterate s).teams.length + (iterate s).reassign.length <
      s.teams.length + s.reassign.length := by
  obtain ⟨front, mid, last, hteams, -⟩ := uneven_spec h.2
  unfold iterate
  rw [hteams]
  dsimp only
  split
  · rw [List.length_cons]
    exact Nat.add_lt_add_right (Nat.lt_succ_self _) _
  · next i hfind =>
    obtain ⟨bot, hbot, -⟩ := find_some hfind
    have hlength := length_transfer front (mid ++ [last])
    have hperm := (Sweep.removeunordered_perm hbot).length_eq
    rw [List.length_cons] at hperm
    rw [hbot]
    cases htransfer : transfer front (mid ++ [last]) with
    | nil =>
      rw [htransfer] at hlength
      exact absurd hlength nofun
    | cons t teams =>
      rw [htransfer] at hlength
      dsimp only
      rw [List.length_reverse, hlength, List.length_cons]
      omega

/-- Only bots that can be moved get another team. -/
theorem iterate_team (s : State) {i : Nat} (hi : i ∉ s.reassign) :
    (iterate s).team i = s.team i ∧ ∀ b ∈ (iterate s).reassign, b ∈ s.reassign := by
  unfold iterate
  split
  · exact ⟨rfl, fun _ hb => hb⟩
  · next front rest _ =>
    split
    · exact ⟨rfl, fun _ hb => hb⟩
    · split
      · next j _ bot t teams hbot _ =>
        have hperm := Sweep.removeunordered_perm hbot
        refine ⟨Function.update_of_ne ?_ .., fun b hb => ?_⟩
        · rintro rfl
          exact hi (hperm.mem_iff.mp List.mem_cons_self)
        · exact hperm.mem_iff.mp (List.mem_cons_of_mem _ hb)
      · exact ⟨rfl, fun _ hb => hb⟩

end Rounds

/-! ## All rounds -/

/-- What holds before each round: the sizes and their order; a team that has been taken away has no
bots and is not smaller than those that are left; and a bot that has been moved is in the last
team. -/
structure Inv (p : Roster) (names : List Text) (s : State) : Prop where
  tracked : Tracked p s
  descending : Descending s.teams
  ne_nil : s.teams ≠ []
  nodup : s.names.Nodup
  sub : ∀ name ∈ s.names, name ∈ names
  proper : [] ∉ names
  gone : ∀ name ∈ names, name ∉ s.names →
    (∀ b ∈ p.bots, s.team b ≠ name) ∧ ∀ t ∈ s.teams, t.score ≤ p.heads s.team name
  named : ∀ b ∈ p.bots, s.team b ≠ [] → s.team b ∈ names
  bots : ∀ b ∈ s.reassign, b ∈ p.bots
  moved : ∀ b ∈ p.bots, b ∉ s.reassign → ∀ before last, s.teams = before ++ [last] →
    s.team b = last.name s.team

section Rounds

variable {p : Roster} {names : List Text} {s : State} {front last : TeamScore}
  {mid : List TeamScore} {team : Nat → Text}

theorem key_bot {b : Nat} (hb : b ∈ p.bots) (hteam : team b ≠ []) :
    p.key team b = some (team b) := by
  refine if_neg fun h => ?_
  rcases h with hspectator | hnil
  · rw [(p.bots_play b hb).2] at hspectator
    exact absurd hspectator nofun
  · exact hteam hnil

theorem inv_begin (p : Roster) (team : Nat → Text) :
    Inv p ((calcteams p team).map (TeamScore.name team)) (begin p team) := by
  obtain ⟨hcounts, hdescending, hne⟩ := calcteams_spec p team
  exact ⟨hcounts.score, hdescending, hne, hcounts.nodup, fun _ hname => hname, hcounts.proper,
    fun name hname hnot => absurd hname hnot,
    fun b hb hteam => hcounts.named b (p.bots_play b hb).1 _ (key_bot hb hteam),
    fun _ hb => hb, fun b hb hnot => absurd hb hnot⟩

/-- The first team has no bots that can be moved, and is taken away. -/
theorem Inv.remove (h : Inv p names s) (hteams : s.teams = front :: (mid ++ [last]))
    (hfind : s.find front = none) : Inv p names { s with teams := mid ++ [last] } := by
  have hmem (t : TeamScore) (ht : t ∈ mid ++ [last]) : t ∈ s.teams :=
    hteams ▸ List.mem_cons_of_mem _ ht
  have hdescending := h.descending
  have hnodup := h.nodup
  rw [State.names, hteams, List.map_cons, List.nodup_cons] at hnodup
  rw [hteams] at hdescending
  obtain ⟨hfront, hrest⟩ := List.pairwise_cons.mp hdescending
  have hnames {name : Text} (hne : name ≠ front.name s.team)
      (hnot : name ∉ (mid ++ [last]).map (TeamScore.name s.team)) : name ∉ s.names := by
    rw [State.names, hteams, List.map_cons, List.mem_cons, not_or]
    exact ⟨hne, hnot⟩
  refine ⟨fun t ht => h.tracked t (hmem t ht), hrest, by simp, hnodup.2, fun name hname => ?_,
    h.proper, fun name hname hnot => ?_, h.named, h.bots, fun b hb hnot before last' hlast => ?_⟩
  · refine h.sub name ?_
    rw [State.names, hteams]
    exact List.mem_cons_of_mem _ hname
  · by_cases heq : name = front.name s.team
    · rw [heq]
      refine ⟨fun b hb hteam => ?_, fun t ht => ?_⟩
      · by_cases hr : b ∈ s.reassign
        · exact find_none hfind b hr hteam
        · have hlast := h.moved b hb hr (front :: mid) last hteams
          refine hnodup.1 ?_
          rw [← hteam, hlast]
          exact List.mem_map_of_mem (List.mem_append_right _ List.mem_cons_self)
      · rw [← h.tracked front (hteams ▸ List.mem_cons_self)]
        exact hfront t ht
    · obtain ⟨hbots, hscore⟩ := h.gone name hname (hnames heq hnot)
      exact ⟨hbots, fun t ht => hscore t (hmem t ht)⟩
  · refine h.moved b hb hnot (front :: before) last' ?_
    rw [hteams]
    exact congrArg (front :: ·) hlast

/-- A client goes to another team. -/
theorem heads_update {bot : Nat} (hbot : bot ∈ p.bots) (hproper : team bot ≠ [])
    {name : Text} (hname : name ≠ []) (n : Text) :
    p.heads (Function.update team bot name) n + (if team bot = n then 1 else 0) =
      p.heads team n + if name = n then 1 else 0 := by
  have hother : ∀ j ≠ bot, p.key (Function.update team bot name) j = p.key team j := by
    intro j hj
    rw [Roster.key, Roster.key, Function.update_of_ne hj]
  have hsum := census_update (p.key team) (p.key (Function.update team bot name))
    p.clients_nodup (p.bots_play bot hbot).1 hother n
  have hnew : p.key (Function.update team bot name) bot = some name := by
    rw [key_bot hbot (by rwa [Function.update_self]), Function.update_self]
  rw [key_bot hbot hproper, hnew, one, one] at hsum
  simpa only [Roster.heads, Option.some.injEq] using hsum

/-- A name is only changed by the client whose buffer it is. -/
theorem name_update {t : TeamScore} {bot : Nat} (h : t.team ≠ .client bot) (name : Text) :
    t.name (Function.update team bot name) = t.name team := by
  unfold TeamScore.name
  cases hlabel : t.team with
  | fixed name => rfl
  | client j =>
    refine Function.update_of_ne ?_ ..
    rintro rfl
    exact h hlabel

/-- The first team, the last one and those between have different names. -/
theorem Inv.names_ne (h : Inv p names s) (hteams : s.teams = front :: (mid ++ [last])) :
    front.name s.team ≠ last.name s.team ∧
      ∀ t ∈ mid, t.name s.team ≠ front.name s.team ∧ t.name s.team ≠ last.name s.team := by
  have hnodup := h.nodup
  rw [State.names, hteams, List.map_cons, List.nodup_cons, List.map_append] at hnodup
  obtain ⟨hfront, hrest⟩ := hnodup
  refine ⟨fun heq => hfront ?_, fun t ht => ⟨fun heq => hfront ?_, ?_⟩⟩
  · rw [heq]
    exact List.mem_append_right _ (List.mem_singleton.mpr rfl)
  · rw [← heq]
    exact List.mem_append_left _ (List.mem_map_of_mem ht)
  · exact (List.nodup_append.mp hrest).2.2 _ (List.mem_map_of_mem ht) _ (List.mem_singleton.mpr rfl)

/-- The array stays in order, where the other teams are between the two. -/
theorem Descending.transfer (h : Descending (front :: (mid ++ [last])))
    (hgap : last.score + 1 < front.score)
    (hmid : ∀ t ∈ mid, last.score < t.score ∧ t.score < front.score) :
    Descending ({ front with score := front.score - 1 } ::
      (mid ++ [{ last with score := last.score + 1 }])) := by
  obtain ⟨-, hrest⟩ := List.pairwise_cons.mp h
  obtain ⟨hmids, -, -⟩ := List.pairwise_append.mp hrest
  refine List.pairwise_cons.mpr ⟨fun t ht => ?_, ?_⟩
  · rcases List.mem_append.mp ht with ht | ht
    · exact Nat.le_sub_one_of_lt (hmid t ht).2
    · rw [List.mem_singleton.mp ht]
      exact Nat.le_sub_one_of_lt hgap
  · refine List.pairwise_append.mpr ⟨hmids, List.pairwise_singleton .., fun t ht u hu => ?_⟩
    rw [List.mem_singleton.mp hu]
    exact (hmid t ht).1

section Move

/-! ### A bot goes from the first team to the last one -/

variable (h : Inv p names s) (hteams : s.teams = front :: (mid ++ [last])) {bot : Nat}
  (hteam : s.team bot = front.name s.team)
include hteam

/-- The buffer of the bot is not the name of another entry. -/
theorem name_move {t : TeamScore} (ht : t.name s.team ≠ front.name s.team) (name : Text) :
    t.name (Function.update s.team bot name) = t.name s.team := by
  refine name_update (fun hbuffer => ht ?_) _
  unfold TeamScore.name
  rw [hbuffer]
  exact hteam

include h hteams

theorem Inv.heads_move (hin : bot ∈ p.bots) (n : Text) :
    p.heads (Function.update s.team bot (last.name s.team)) n +
      (if front.name s.team = n then 1 else 0) =
        p.heads s.team n + if last.name s.team = n then 1 else 0 := by
  have hproper {t : TeamScore} (ht : t ∈ s.teams) : t.name s.team ≠ [] := fun hnil =>
    h.proper (hnil ▸ h.sub _ (List.mem_map_of_mem ht))
  have hfront : front.name s.team ≠ [] := hproper (by rw [hteams]; exact List.mem_cons_self)
  have hlast : last.name s.team ≠ [] := hproper (by rw [hteams]; simp)
  rw [← hteam] at hfront ⊢
  exact heads_update hin hfront hlast n

/-- The names of the entries stay. -/
theorem Inv.names_move (hlabel : front.team ≠ .client bot) :
    ({ front with score := front.score - 1 } ::
      (mid ++ [{ last with score := last.score + 1 }])).map
        (TeamScore.name (Function.update s.team bot (last.name s.team))) = s.names := by
  obtain ⟨hfrontlast, hapart⟩ := h.names_ne hteams
  rw [State.names, hteams, List.map_cons, List.map_cons, List.map_append, List.map_append,
    name_score front (front.score - 1), name_update hlabel]
  congr 2
  · exact List.map_congr_left fun t ht => name_move hteam (hapart t ht).1 _
  · rw [List.map_singleton, List.map_singleton, name_score last (last.score + 1),
      name_move hteam hfrontlast.symm]

/-- The scores are still those of the teams. -/
theorem Inv.tracked_move (hlabel : front.team ≠ .client bot) (hin : bot ∈ p.bots)
    (reassign : List Nat) : Tracked p {
      team := Function.update s.team bot (last.name s.team)
      teams := { front with score := front.score - 1 } ::
        (mid ++ [{ last with score := last.score + 1 }])
      reassign } := by
  obtain ⟨hfrontlast, hapart⟩ := h.names_ne hteams
  have hheads := h.heads_move hteams hteam hin
  have htracked := h.tracked
  unfold Tracked at htracked
  rw [hteams] at htracked
  intro t ht
  rcases List.mem_cons.mp ht with rfl | ht
  · have hn := hheads (front.name s.team)
    rw [if_pos rfl, if_neg hfrontlast.symm, ← htracked front List.mem_cons_self] at hn
    dsimp only
    rw [name_score front (front.score - 1), name_update hlabel]
    omega
  · rcases List.mem_append.mp ht with ht | ht
    · have hn := hheads (t.name s.team)
      rw [if_neg (hapart t ht).1.symm, if_neg (hapart t ht).2.symm,
        ← htracked t (List.mem_cons_of_mem _ (List.mem_append_left _ ht))] at hn
      dsimp only
      rw [name_move hteam (hapart t ht).1]
      exact hn.symm
    · obtain rfl := List.mem_singleton.mp ht
      have hn := hheads (last.name s.team)
      rw [if_neg hfrontlast, if_pos rfl, ← htracked last (by simp)] at hn
      dsimp only
      rw [name_score last (last.score + 1), name_move hteam hfrontlast.symm]
      exact hn.symm

theorem Inv.move (hgap : last.score + 1 < front.score) {i : Nat}
    (hbot : s.reassign[i]? = some bot) (hlabel : front.team ≠ .client bot)
    (hmid : ∀ t ∈ mid, last.score < t.score ∧ t.score < front.score) :
    Inv p names {
      team := Function.update s.team bot (last.name s.team)
      teams := { front with score := front.score - 1 } ::
        (mid ++ [{ last with score := last.score + 1 }])
      reassign := Sweep.removeunordered s.reassign i } := by
  have hperm := Sweep.removeunordered_perm hbot
  have hin : bot ∈ p.bots := h.bots bot (hperm.mem_iff.mp List.mem_cons_self)
  have hmem (t : TeamScore) (ht : t ∈ s.teams) : t.name s.team ∈ s.names := List.mem_map_of_mem ht
  have hfrontmem : front ∈ s.teams := hteams ▸ List.mem_cons_self
  have hlastmem : last ∈ s.teams := by rw [hteams]; simp
  have hfrontlast := (h.names_ne hteams).1
  have hnames := h.names_move hteams hteam hlabel
  refine ⟨h.tracked_move hteams hteam hlabel hin _, ?_, List.cons_ne_nil _ _, ?_, ?_, h.proper,
    ?_, ?_, ?_, ?_⟩
  · have hdescending := h.descending
    rw [hteams] at hdescending
    exact hdescending.transfer hgap hmid
  · rw [State.names, hnames]
    exact h.nodup
  · rw [State.names, hnames]
    exact h.sub
  · intro name hin' hnot
    rw [State.names, hnames] at hnot
    obtain ⟨hbots, hscore⟩ := h.gone name hin' hnot
    have hnf : front.name s.team ≠ name := fun heq => hnot (heq ▸ hmem front hfrontmem)
    have hnl : last.name s.team ≠ name := fun heq => hnot (heq ▸ hmem last hlastmem)
    have hsame := h.heads_move hteams hteam hin name
    rw [if_neg hnf, if_neg hnl] at hsame
    have hlarge := hscore front hfrontmem
    refine ⟨fun b hb => ?_, fun t ht => ?_⟩
    · dsimp only
      by_cases heq : b = bot
      · rw [heq, Function.update_self]
        exact hnl
      · rw [Function.update_of_ne heq]
        exact hbots b hb
    · dsimp only
      have hle : t.score ≤ front.score := by
        rcases List.mem_cons.mp ht with rfl | ht
        · exact Nat.sub_le _ _
        · rcases List.mem_append.mp ht with ht | ht
          · exact Nat.le_of_lt (hmid t ht).2
          · rw [List.mem_singleton.mp ht]
            exact Nat.le_of_lt hgap
      omega
  · intro b hb hne
    dsimp only at hne ⊢
    by_cases heq : b = bot
    · rw [heq, Function.update_self]
      exact h.sub _ (hmem last hlastmem)
    · rw [Function.update_of_ne heq] at hne ⊢
      exact h.named b hb hne
  · exact fun b hb => h.bots b (hperm.mem_iff.mp (List.mem_cons_of_mem _ hb))
  · intro b hb hnot before last' hlast'
    have hlast : { last with score := last.score + 1 } = last' := by
      have heq := congrArg List.getLast? hlast'
      rw [← List.cons_append, List.getLast?_concat, List.getLast?_concat] at heq
      exact Option.some.inj heq
    dsimp only
    rw [← hlast, name_score last (last.score + 1), name_move hteam hfrontlast.symm]
    by_cases heq : b = bot
    · rw [heq, Function.update_self]
    · rw [Function.update_of_ne heq]
      refine h.moved b hb (fun hr => ?_) (front :: mid) last hteams
      rcases List.mem_cons.mp (hperm.mem_iff.mpr hr) with heq' | hr'
      · exact heq heq'
      · exact hnot hr'

end Move

/-- A round that is clear keeps what holds. -/
theorem Inv.iterate (h : Inv p names s) (hmore : s.More) (hclear : Clear s) :
    Inv p names (iterate s) := by
  obtain ⟨front, mid, last, hteams, hgap⟩ := uneven_spec hmore.2
  rcases iterate_cases hteams hgap hclear with
    ⟨hfind, heq⟩ | ⟨i, bot, hbot, hteam, hlabel, hmid, heq⟩
  · rw [heq]
    exact h.remove hteams hfind
  · rw [heq]
    exact h.move hteams hteam hgap hbot hlabel hmid

/-- When the loop ends, the teams are balanced. -/
theorem Inv.balanced (h : Inv p names s) (hmore : ¬ s.More) : Balanced p s.team names := by
  intro b hb hteam name hname
  obtain ⟨before, last, hteams⟩ : ∃ before last, s.teams = before ++ [last] := by
    rcases List.eq_nil_or_concat s.teams with hnil | ⟨before, last, heq⟩
    · exact absurd hnil h.ne_nil
    · exact ⟨before, last, heq.trans List.concat_eq_append⟩
  have hlastmem : last ∈ s.teams := by rw [hteams]; simp
  have hdescending := h.descending
  rw [hteams] at hdescending
  have hmin : last.score ≤ p.heads s.team name := by
    by_cases hin : name ∈ s.names
    · obtain ⟨t, ht, rfl⟩ := List.mem_map.mp hin
      rw [← h.tracked t ht]
      rw [hteams] at ht
      rcases List.mem_append.mp ht with ht | ht
      · exact (List.pairwise_append.mp hdescending).2.2 t ht last List.mem_cons_self
      · rw [List.mem_singleton.mp ht]
    · exact (h.gone name hname hin).2 last hlastmem
  refine Nat.le_trans ?_ (Nat.succ_le_succ hmin)
  by_cases hr : b ∈ s.reassign
  · have heven : uneven (before ++ [last]) = false := by
      rw [← hteams]
      exact Bool.eq_false_iff.mpr fun heq => hmore ⟨List.ne_nil_of_mem hr, heq⟩
    by_cases hin : s.team b ∈ s.names
    · obtain ⟨t, ht, htname⟩ := List.mem_map.mp hin
      rw [← htname, ← h.tracked t ht]
      exact even_spec hdescending heven t (hteams ▸ ht)
    · exact absurd rfl ((h.gone _ (h.named b hb hteam) hin).1 b hb)
  · rw [h.moved b hb hr before last hteams, ← h.tracked last hlastmem]
    exact Nat.le_succ _

theorem rounds_succ (p : Roster) (team : Nat → Text) (n : Nat) : rounds p team (n + 1) =
    if (rounds p team n).More then TeamBalance.iterate (rounds p team n) else rounds p team n :=
  whileDo_succ _ n

theorem inv_rounds
    (hclear : ∀ n, (rounds p team n).More → Clear (rounds p team n)) (n : Nat) :
    Inv p ((calcteams p team).map (TeamScore.name team)) (rounds p team n) := by
  induction n with
  | zero => exact inv_begin p team
  | succ n ih =>
    rw [rounds_succ]
    split
    · next hmore => exact ih.iterate hmore (hclear n hmore)
    · exact ih

/-- The loop ends because its condition fails. -/
theorem not_more (p : Roster) (team : Nat → Text) : ¬ (balanceteams p team).More := by
  have hinv : ∀ s : State, True → s.More → True := fun _ _ _ => trivial
  exact not_whileDo hinv (fun s => s.teams.length + s.reassign.length)
    (fun _ _ hmore => iterate_lt hmore) trivial (Nat.lt_succ_self _)

/-- After the loop has ended, nothing changes. -/
theorem rounds_add {n : Nat} (hn : ¬ (rounds p team n).More) (k : Nat) :
    rounds p team (n + k) = rounds p team n := by
  induction k with
  | zero => rfl
  | succ k ih =>
    rw [← Nat.add_assoc, rounds_succ, ih, if_neg hn]

/-- Who is no bot keeps its team. -/
theorem team_rounds (p : Roster) (team : Nat → Text) (n : Nat) {i : Nat} (hi : i ∉ p.bots) :
    (rounds p team n).team i = team i := by
  have hinv : (∀ b ∈ (rounds p team n).reassign, b ∈ p.bots) ∧
      (rounds p team n).team i = team i := by
    induction n with
    | zero => exact ⟨fun _ hb => hb, rfl⟩
    | succ n ih =>
      have hround := iterate_team (rounds p team n) fun h => hi (ih.1 i h)
      rw [rounds_succ]
      split
      · exact ⟨fun b hb => ih.1 b (hround.2 b hb), hround.1.trans ih.2⟩
      · exact ih
  exact hinv.2

/-- When all rounds are clear, the sizes in the array are real in all of them, and the teams are
balanced at the end. In any case the loop ends, and only bots are moved. -/
theorem teams_balanced (p : Roster) (team : Nat → Text)
    (hclear : ∀ n, (rounds p team n).More → Clear (rounds p team n)) :
    (∀ n, Tracked p (rounds p team n)) ∧
      Balanced p (balanceteams p team).team ((calcteams p team).map (TeamScore.name team)) ∧
      (∀ i, i ∉ p.bots → (balanceteams p team).team i = team i) ∧
      ¬ (balanceteams p team).More := by
  have hinv := inv_rounds hclear
  refine ⟨fun n => (hinv n).tracked, ?_, fun i hi => team_rounds p team _ hi, not_more p team⟩
  exact (hinv _).balanced (not_more p team)

/-- Two bots and a client are in one team, and a client is in the other one. -/
theorem teams_balanced_two :
    let p : Roster := ⟨[0, 1, 2, 3], [2, 3], fun _ => false, by decide, by decide, by decide⟩
    let team : Nat → Text := fun i => if i = 0 then Tallies.evil else Tallies.good
    (∀ n, Tracked p (rounds p team n)) ∧
      Balanced p (balanceteams p team).team ((calcteams p team).map (TeamScore.name team)) ∧
      (∀ i, i ∉ p.bots → (balanceteams p team).team i = team i) ∧
      ¬ (balanceteams p team).More := by
  refine teams_balanced _ _ fun n hmore => ?_
  rcases n with _ | n
  · intro front mid last hteams i bot _ hbot
    have hcalc : front :: (mid ++ [last]) = [⟨.client 1, 3⟩, ⟨.client 0, 1⟩] :=
      hteams.symm.trans (by decide)
    rcases mid with _ | ⟨t, mid⟩
    · obtain ⟨rfl, rfl⟩ : front = ⟨.client 1, 3⟩ ∧ last = ⟨.client 0, 1⟩ := by
        simpa using hcalc
      refine ⟨?_, by decide, fun t ht => absurd ht List.not_mem_nil⟩
      rintro heq
      obtain rfl : 1 = bot := by simpa using heq
      exact absurd (List.mem_of_getElem? hbot) (by decide)
    · simp at hcalc
  · rw [Nat.add_comm, rounds_add (by decide)] at hmore
    exact absurd hmore (by decide)

/-- A client and two bots that are in a team by themselves: the two default teams are both empty,
so that the entries are swapped, and the wrong one is read. -/
theorem three_in_one :
    let p : Roster := ⟨[0, 1, 2], [1, 2], fun _ => false, by decide, by decide, by decide⟩
    let team : Nat → Text := fun _ => [114, 101, 100]
    ¬ Tracked p (rounds p team 1) ∧
      ¬ Balanced p (balanceteams p team).team ((calcteams p team).map (TeamScore.name team)) := by
  unfold Tracked Balanced
  decide

end Rounds

end TeamBalance

end Zuckerserv

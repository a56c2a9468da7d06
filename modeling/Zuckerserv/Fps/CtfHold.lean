import Zuckerserv.Fps.CtfOwners

/-!
# Holding a flag

In the hold mode a team scores when it has held a flag for a time. The hold clock of a flag
says since when; it tells the truth as long as no request that is refused starts it, and no
flag is passed to a team whose name is part of that of the last owner's.

* `Clocked`, `clocked_step` — what one action does to the hold clocks.
* `HeldSince`, `Timed` — who has held a flag since when, and the invariant of the clocks.
* `heldNow`, `heldNow_update` — what the update scores.
* `held_long_enough` — every score for holding a flag is deserved.
* `scored_at_once` — a request that is refused gives the flag a start.
-/

namespace Zuckerserv

namespace Ctf

variable {R : Rules}

/-! ## Clocks -/

/-- The team of the client stays. -/
def Client.KeepsTeam (ci ci' : Client) : Prop := ci'.team = ci.team

instance : IsPreorder Client Client.KeepsTeam where
  refl _ := rfl
  trans _ _ _ h h' := h'.trans h

/-- No flag goes to another team without a new owner whose team's name is not part of the old
one's: an owner that changes its team drops the flag, and a pass is within the team or to a
team with a name of its own. -/
def SameTeam (s : Ctf) : Action → Prop
  | .passflag fromclientnum toclientnum => s.owns fromclientnum →
    s.team toclientnum <:+: s.team fromclientnum → s.team toclientnum = s.team fromclientnum
  | .changeteam cn team dosuicide prevented => s.owns cn →
    (dosuicide = true ∧ prevented = false ∧ (s.clients cn).state = .ALIVE) ∨ team = s.team cn
  | .botteam cn team => s.owns cn → (s.clients cn).state = .ALIVE ∨ team = s.team cn
  | .connect cn _ team => s.owns cn → (s.clients cn).connected = true ∨ team = s.team cn
  | _ => True

/-- What an action does to the hold clocks: no clock runs without an owner, and it is set when
the flag goes to another team. -/
structure Clocked (s s' : Ctf) : Prop where
  rest : ∀ f' ∈ s'.flags, f'.owner = none → f'.starttimemssameteaminarow = 0
  running : ∀ (i : Nat) (f' : Flag) (cn' : Cn), s'.flags[i]? = some f' → f'.owner = some cn' →
    f'.starttimemssameteaminarow = s'.totalmillis ∨ ∃ f cn, s.flags[i]? = some f ∧
      f.owner = some cn ∧ s'.team cn' = s.team cn ∧
        f'.starttimemssameteaminarow = f.starttimemssameteaminarow

/-- No clock runs without an owner. -/
def AtRest (s : Ctf) : Prop := ∀ f ∈ s.flags, f.owner = none → f.starttimemssameteaminarow = 0

theorem Clocked.refl {s : Ctf} (h : s.AtRest) : s.Clocked s :=
  ⟨h, fun _ f cn hf hcn => .inr ⟨f, cn, hf, hcn, rfl, rfl⟩⟩

/-- Flags that change calmly, and owners that keep their teams. -/
theorem Clocked.of_ordinary {s s' : Ctf} (h : s.AtRest) (hord : s.Ordinary s')
    (hteam : Keeps Client.KeepsTeam s s') : s.Clocked s' := by
  refine ⟨fun f' hf' hnone => ?_, fun i f' cn hf' hcn => .inr ?_⟩
  · obtain ⟨i, hi⟩ := List.getElem?_of_mem hf'
    obtain ⟨f, hf, hcalm⟩ := Pointwise.exists_getElem? hord.flags hi
    rcases hcalm.stopped hnone with hzero | ⟨howner, hsame⟩
    · exact hzero
    · rw [hsame, h f (List.mem_of_getElem? hf) howner]
  · obtain ⟨f, hf, hcalm⟩ := Pointwise.exists_getElem? hord.flags hf'
    refine ⟨f, cn, hf, hcalm.released cn hcn, ?_, hcalm.clock ?_⟩
    · exact hteam.client cn ⟨f', List.mem_of_getElem? hf', hcn⟩
    · rw [hcn]
      exact Option.some_ne_none cn

/-- An owner keeps its team, or drops the flag. -/
theorem step_keepsTeam {s : Ctf} (hs : s.Start) {a : Action} (ha : ¬ a.Gives)
    (hok : s.SameTeam a) : Keeps Client.KeepsTeam s (next R s a) := by
  have hrefl : Keeps Client.KeepsTeam s s := .refl s
  have hleave (cn : Cn) (f : Client → Client) :
      Keeps Client.KeepsTeam s ((s.leavegame R cn).modifyClient cn f) :=
    (Keeps.of_calm (calm_leavegame s cn)).modifyClient cn f fun h =>
      absurd h (not_owns_leavegame hs cn)
  have hkill (cn : Cn) (actor : Option Cn) : Keeps Client.KeepsTeam s (s.kill R cn actor) :=
    (Keeps.of_calm (calm_died s cn actor)).modifyClient cn _ fun _ => rfl
  have hstate (cn : Cn) (state : Game.PlayState) :
      Keeps Client.KeepsTeam s (s.modifyClient cn fun ci => { ci with state := state }) :=
    hrefl.modifyClient cn _ fun _ => rfl
  cases a with
  | takeflag cn i version => exact absurd trivial ha
  | passflag fromclientnum toclientnum => exact absurd trivial ha
  | initflags list commit => exact absurd trivial ha
  | trydropflag cn => exact .ite (fun _ => .of_calm (calm_dropflag s cn none)) fun _ => hrefl
  | kill target actor => exact .ite (fun _ => hkill target _) fun _ => hrefl
  | suicide cn prevented => exact keeps_suicide hs cn prevented
  | slay cn => exact .ite (fun _ => hstate cn _) fun _ => hrefl
  | fakedamage target actor =>
    cases actor with
    | some actor => exact hkill target (some actor)
    | none => exact hstate target .DEAD
  | changeteam cn team dosuicide prevented =>
    refine .ite (fun _ => ?_) fun _ => hrefl
    have hdrop : Keeps Client.KeepsTeam s (if dosuicide then s.suicide R cn prevented else s) :=
      .ite (fun _ => keeps_suicide hs cn prevented) fun _ => hrefl
    refine hdrop.modifyClient cn _ fun howns => ?_
    by_cases hdies : dosuicide = true ∧ prevented = false ∧ (s.clients cn).state = .ALIVE
    · obtain ⟨rfl, rfl, halive⟩ := hdies
      have hdied : s.suicide R cn false = _ := if_neg (by simp [halive])
      rw [if_pos rfl, hdied] at howns
      exact absurd howns (not_owns_died hs cn none)
    · have hteam := (hok (hdrop.owns howns)).resolve_left hdies
      exact hteam.trans (hdrop.client cn howns).symm
  | botteam cn team =>
    show Keeps Client.KeepsTeam s ((if (s.clients cn).state = .ALIVE then s.dropflag R cn none
      else s).modifyClient cn fun ci => { ci with team := team })
    split
    · exact (Keeps.of_calm (calm_dropflag s cn none)).modifyClient cn _ fun howns =>
        absurd howns (not_owns_dropflag hs cn none)
    · rename_i hdead
      exact hrefl.modifyClient cn _ fun howns => (hok howns).resolve_left hdead
  | spectator cn val =>
    exact .ite (fun _ => hrefl) fun _ => .ite (fun _ => hleave cn _) fun _ =>
      .ite (fun _ => hstate cn _) fun _ => hrefl
  | connect cn state team =>
    refine .ite (fun _ => hrefl) fun hcon => ?_
    exact hrefl.modifyClient cn _ fun howns => (hok howns).resolve_left hcon
  | disconnect cn => exact .ite (fun _ => hleave cn _) fun _ => hrefl
  | spawn cn => exact .ite (fun _ => hstate cn _) fun _ => hrefl
  | lagged cn val =>
    exact .ite (fun _ => hstate cn _) fun _ => .ite (fun _ => hstate cn _) fun _ => hrefl
  | move cn o => exact hrefl.modifyClient cn (fun ci => { ci with o := o }) fun _ => rfl
  | tick elapsedtime curtime => exact ⟨hrefl.flags, hrefl.client⟩
  | update => exact .of_calm (calm_update s)

/-- In the hold mode a request is refused, or takes the flag. -/
theorem decide_hold (hhold : R.mHold = true) (s : Ctf) (cn : Cn) (f : Flag) (version : Int) :
    s.decide R cn f version = .refused ∨ s.decide R cn f version = .take := by
  unfold decide
  dsimp only
  split
  · exact .inl rfl
  · rw [if_pos (.inl hhold)]
    split
    · exact .inl rfl
    · exact .inr rfl

/-- A flag that is taken has no owner. -/
theorem owner_of_decide {s : Ctf} {cn : Cn} {f : Flag} {version : Int}
    (h : s.decide R cn f version ≠ .refused) : f.owner = none := by
  by_contra hne
  exact h (if_pos (.inr (.inl hne)))

/-- The clock of a flag that is taken starts now. -/
theorem Flag.clock_taken {f : Flag} {s : Ctf} (cn : Cn) (howner : f.owner = none)
    (hzero : f.starttimemssameteaminarow = 0) :
    (f.taken s cn).starttimemssameteaminarow = s.totalmillis := by
  have hstarted : f.started s.totalmillis = { f with starttimemssameteaminarow := s.totalmillis } :=
    if_pos hzero
  have hown : ((f.started s.totalmillis).own s.team cn s.lastmillis
      s.totalmillis).starttimemssameteaminarow = s.totalmillis := by
    rw [hstarted]
    unfold own
    dsimp only
    rw [howner]
  unfold taken
  dsimp only
  split <;> exact hown

theorem clocked_takeflag (hhold : R.mHold = true) {s : Ctf} (h : s.AtRest) (cn : Cn)
    (i version : Int) (hcon : (s.clients cn).connected = true)
    (hok : NotStarted R s (.takeflag cn i version)) :
    s.Clocked (s.takeflag R cn i version) := by
  have hrun := hok cn i version rfl hcon
  have htaking := takeflag_spec (R := R) s cn i version
  generalize s.takeflag R cn i version = s' at htaking
  cases htaking with
  | ignored => exact .refl h
  | @refused k f hreq hdecide =>
    obtain ⟨-, -, hf, -⟩ := requested_eq_some hreq
    rw [modifyFlag_started hf (hrun k f hreq hdecide)]
    exact .refl h
  | scored hreq hdecide =>
    rcases decide_hold hhold s cn _ version with hrefused | htake
    · exact absurd hrefused hdecide.1
    · exact absurd htake hdecide.2
  | @taken k f hreq hdecide =>
    obtain ⟨-, -, hf, -⟩ := requested_eq_some hreq
    have howner := owner_of_decide (by rw [hdecide]; exact nofun)
    have hclock := f.clock_taken (s := s) cn howner (h f (List.mem_of_getElem? hf) howner)
    have hafter {j : Nat} {g : Flag} (hg : (s.flags.modify k (·.taken s cn))[j]? = some g) :
        g = f.taken s cn ∨ s.flags[j]? = some g := by
      by_cases hj : k = j
      · subst hj
        rw [List.getElem?_modify_eq, hf] at hg
        exact .inl (Option.some_inj.mp hg).symm
      · rw [List.getElem?_modify_ne _ _ hj] at hg
        exact .inr hg
    refine ⟨fun g hmem hnone => ?_, fun j g c hg hc => ?_⟩
    · obtain ⟨j, hg⟩ := List.getElem?_of_mem hmem
      rcases hafter hg with rfl | hg
      · rw [f.owner_taken s cn] at hnone
        cases hnone
      · exact h g (List.mem_of_getElem? hg) hnone
    · rcases hafter hg with rfl | hg
      · exact .inl hclock
      · exact .inr ⟨g, c, hg, hc, rfl, rfl⟩

theorem clocked_passFlag {s : Ctf} (h : s.AtRest) (fromclientnum toclientnum : Cn)
    (hok : s.SameTeam (.passflag fromclientnum toclientnum)) :
    s.Clocked (s.passFlag fromclientnum toclientnum) := by
  refine ⟨fun f' hf' hnone => ?_, fun i f' cn' hf' hcn' => ?_⟩
  · obtain ⟨f, hf, rfl⟩ := List.mem_map.mp hf'
    split at hnone
    · cases hnone
    · rename_i hother
      rw [if_neg hother]
      exact h f hf hnone
  · obtain ⟨f, hf, rfl⟩ := Option.map_eq_some_iff.mp ((List.getElem?_map ..).symm.trans hf')
    split at hcn'
    · rename_i hfrom
      obtain rfl : toclientnum = cn' := Option.some_inj.mp hcn'
      have hclock : (f.own s.team toclientnum s.lastmillis
          s.totalmillis).bump.starttimemssameteaminarow =
          if s.team toclientnum <:+: s.team fromclientnum then f.starttimemssameteaminarow
          else s.totalmillis := by
        unfold Flag.own Flag.bump
        dsimp only
        rw [hfrom]
      rw [if_pos hfrom, hclock]
      by_cases hname : s.team toclientnum <:+: s.team fromclientnum
      · rw [if_pos hname]
        exact .inr ⟨f, fromclientnum, hf, hfrom,
          hok ⟨f, List.mem_of_getElem? hf, hfrom⟩ hname, rfl⟩
      · exact .inl (if_neg hname)
    · rename_i hother
      rw [if_neg hother]
      exact .inr ⟨f, cn', hf, hcn', rfl, rfl⟩

theorem clocked_step (hhold : R.mHold = true) {s : Ctf} (hs : s.Start) (h : s.AtRest)
    {a : Action} (hclock : NotStarted R s a) (hteam : s.SameTeam a) : s.Clocked (next R s a) := by
  by_cases ha : a.Gives
  · cases a with
    | takeflag cn i version =>
      by_cases hcon : (s.clients cn).connected = true
      · have hnext : next R s (.takeflag cn i version) = s.takeflag R cn i version := if_pos hcon
        rw [hnext]
        exact clocked_takeflag hhold h cn i version hcon hclock
      · have hnext : next R s (.takeflag cn i version) = s := if_neg hcon
        rw [hnext]
        exact .refl h
    | passflag fromclientnum toclientnum => exact clocked_passFlag h _ _ hteam
    | initflags list commit =>
      show s.Clocked (s.parseflags R list commit)
      obtain ⟨hclients, hflags | hfresh⟩ := parseflags_fresh (R := R) hs list commit
      · refine ⟨fun f hf => h f (hflags ▸ hf), fun i f cn hf hcn => .inr ?_⟩
        refine ⟨f, cn, hflags ▸ hf, hcn, ?_, rfl⟩
        unfold team
        rw [hclients]
      · refine ⟨fun f hf _ => (hfresh f hf).2, fun i f cn hf hcn => ?_⟩
        rw [(hfresh f (List.mem_of_getElem? hf)).1] at hcn
        cases hcn
    | _ => exact absurd ha id
  · exact .of_ordinary h (step_ordinary s ha) (step_keepsTeam hs ha hteam)

/-! ## Histories -/

/-- A client of the team has the flag `i`. -/
def heldBy (s : Ctf) (i : Nat) (team : Name) : Prop :=
  ∃ f cn, s.flags[i]? = some f ∧ f.owner = some cn ∧ s.team cn = team

/-- At the end of the run, the team has had the flag `i` all the time since some moment that was
not after `t`. -/
def HeldSince (R : Rules) (s₀ : Ctf) (as : List Action) (i : Nat) (team : Name) (t : Int) : Prop :=
  ∃ k ≤ as.length, (Machine.run (next R) s₀ (as.take k)).totalmillis ≤ t ∧
    Machine.Since (next R) s₀ as k fun s => s.heldBy i team

/-- The hold clocks tell the truth at the end of the run. -/
structure Timed (R : Rules) (s₀ : Ctf) (as : List Action) : Prop where
  start : (Machine.run (next R) s₀ as).Start
  rest : (Machine.run (next R) s₀ as).AtRest
  since : ∀ (i : Nat) (f : Flag) (cn : Cn), (Machine.run (next R) s₀ as).flags[i]? = some f →
    f.owner = some cn →
    HeldSince R s₀ as i ((Machine.run (next R) s₀ as).team cn) f.starttimemssameteaminarow

/-- No request that is refused starts a hold clock, and no flag changes the team unseen. -/
def Fair (R : Rules) (s : Ctf) (a : Action) : Prop := NotStarted R s a ∧ s.SameTeam a

theorem timed_snoc (hhold : R.mHold = true) {s₀ : Ctf} {as : List Action}
    (h : Timed R s₀ as) {a : Action} (hok : Fair R (Machine.run (next R) s₀ as) a) :
    Timed R s₀ (as ++ [a]) := by
  have hclocked := clocked_step hhold h.start h.rest hok.1 hok.2
  have hrun : Machine.run (next R) s₀ (as ++ [a]) = next R (Machine.run (next R) s₀ as) a :=
    Machine.run_snoc s₀ as a
  rw [← hrun] at hclocked
  refine ⟨?_, hclocked.rest, fun i f' cn' hf' hcn' => ?_⟩
  · rw [hrun]
    exact (versioned_step R a _ h.start).1
  have hnow : (Machine.run (next R) s₀ (as ++ [a])).heldBy i
      ((Machine.run (next R) s₀ (as ++ [a])).team cn') := ⟨f', cn', hf', hcn', rfl⟩
  rcases hclocked.running i f' cn' hf' hcn' with hset | ⟨f, cn, hf, hcn, hteam, hclock⟩
  · refine ⟨(as ++ [a]).length, le_rfl, ?_, .now hnow⟩
    rw [List.take_length, hset]
  · obtain ⟨k, hk, htime, hsince⟩ := h.since i f cn hf hcn
    refine ⟨k, ?_, ?_, ?_⟩
    · rw [List.length_append]
      exact Nat.le_add_right_of_le hk
    · rwa [List.take_append_of_le_length hk, hclock]
    · rw [hteam] at hnow ⊢
      exact hsince.snoc hnow

/-- The hold clocks tell the truth in every fair run. -/
theorem timed_run (hhold : R.mHold = true) {s₀ : Ctf} (h₀ : s₀.flags = []) {as : List Action}
    (hok : Machine.Along (Fair R) (next R) s₀ as) : Timed R s₀ as := by
  induction as using List.reverseRecOn with
  | nil =>
    have hno {i : Nat} {f : Flag} : s₀.flags[i]? ≠ some f := by
      rw [h₀]
      exact nofun
    exact ⟨fun _ => h₀, fun f hf => absurd (h₀ ▸ hf) List.not_mem_nil,
      fun i f cn hf => absurd hf hno⟩
  | append_singleton as a ih =>
    obtain ⟨hfair, hlast, -⟩ := Machine.along_append.mp hok
    exact timed_snoc hhold (ih hfair) hlast

/-! ## Scores -/

/-- The flag of the score is its owner's, and its clock has run long enough. -/
def heldNow (R : Rules) (s : Ctf) (e : Held) : Prop :=
  ∃ f, s.flags[e.flag]? = some f ∧ f.owner = some e.cn ∧
    f.starttimemssameteaminarow + R.ctf_m_hold_HOLDSECS ≤ s.totalmillis

/-- The contract of the update: flags change calmly, and only flags that have been held long
enough are scored. -/
def deserved (R : Rules) : Contract Ctf Held where
  rel s o s' := s.Calm s' ∧ ∀ e ∈ o, heldNow R s e
  refl s := ⟨.refl s, fun _ he => absurd he List.not_mem_nil⟩
  trans h h' := by
    refine ⟨h.1.trans h'.1, fun e he => ?_⟩
    rcases List.mem_append.mp he with he | he
    · exact h.2 e he
    · obtain ⟨f', hf', hcn, htime⟩ := h'.2 e he
      obtain ⟨f, hf, hcalm⟩ := Pointwise.exists_getElem? h.1.flags hf'
      have howner : f'.owner ≠ none := by
        rw [hcn]
        exact Option.some_ne_none _
      refine ⟨f, hf, hcalm.released _ hcn, ?_⟩
      rwa [← hcalm.clock howner, ← h.1.totalmillis]

theorem deserved_of_calm {p : Prog Ctf Held} (h : calm.Meets p) (hsilent : ∀ s, (p s).2 = []) :
    (deserved R).Meets p := by
  intro s
  refine ⟨h s, fun e he => ?_⟩
  rw [hsilent s] at he
  exact absurd he List.not_mem_nil

theorem heldNow_of_holder (hrugby : R.rugbyEnabled = 1) {s : Ctf} {i : Nat} {cn : Cn}
    (h : (s.flags[i]?).bind (s.holder R) = some cn) : heldNow R s ⟨i, cn⟩ := by
  obtain ⟨f, hf, hholder⟩ := Option.bind_eq_some_iff.mp h
  unfold holder at hholder
  split at hholder
  · rename_i htime
    refine ⟨f, hf, hholder, ?_⟩
    rcases htime.2 with ⟨hzero, -⟩ | ⟨-, -, hlong⟩
    · exact absurd (hrugby.symm.trans hzero) (by decide)
    · omega
  · cases hholder

theorem deserved_scoreheld (hrugby : R.rugbyEnabled = 1) (i : Nat) :
    (deserved R).Meets (scoreheld R i) := by
  refine .chooseAt fun s => ?_
  cases hholder : (s.flags[i]?).bind (s.holder R) with
  | none => exact (deserved R).refl s
  | some cn =>
    have hrespawn : calm.Meets (.modify fun t : Ctf => (t.spawnflag R i).modifyFlag i Flag.bump) :=
      fun t => calm_respawn t i
    refine .ite (fun _ => ?_) fun _ => deserved_of_calm hrespawn (fun _ => rfl) s
    refine ⟨calm_scoreflag s cn i none, fun e he => ?_⟩
    rw [List.mem_singleton.mp he]
    exact heldNow_of_holder hrugby hholder

theorem heldNow_update (hrugby : R.rugbyEnabled = 1) : (deserved R).Meets (update R) := by
  refine .choose fun s => .ite .skip (.each fun i => .seq ?_ (.seq ?_ ?_))
  · exact deserved_of_calm (calm_resetflag i) fun _ => rfl
  · exact deserved_of_calm (calm_showflag i) fun _ => rfl
  · exact deserved_scoreheld hrugby i

/-- Every score for holding a flag, in a run, is deserved: the flag has been with the team of
the one who scores for `ctf_m_hold_HOLDSECS`; and no request that is refused touches a clock. -/
structure HoldsTrue (R : Rules) (s₀ : Ctf) (as : List Action) : Prop where
  scored : ∀ (bs cs : List Action), as = bs ++ .update :: cs →
    ∀ e ∈ (update R (Machine.run (next R) s₀ bs)).2,
      HeldSince R s₀ bs e.flag ((Machine.run (next R) s₀ bs).team e.cn)
        ((Machine.run (next R) s₀ bs).totalmillis - R.ctf_m_hold_HOLDSECS)
  refused : ∀ (bs cs : List Action) (cn : Cn) (i version : Int),
    as = bs ++ .takeflag cn i version :: cs →
    (∀ k f, (Machine.run (next R) s₀ bs).requested cn i = some (k, f) →
      (Machine.run (next R) s₀ bs).decide R cn f version = .refused) →
    next R (Machine.run (next R) s₀ bs) (.takeflag cn i version) = Machine.run (next R) s₀ bs

/-- In the hold mode with `rugby_enabled`, every run in which no request that is refused starts a
hold clock, and no flag changes the team unseen, scores truly. -/
theorem held_long_enough (hhold : R.mHold = true) (hrugby : R.rugbyEnabled = 1) {s₀ : Ctf}
    (h₀ : s₀.flags = []) {as : List Action} (hok : Machine.Along (Fair R) (next R) s₀ as) :
    HoldsTrue R s₀ as where
  scored bs cs has e he := by
    subst has
    have htimed := timed_run hhold h₀ (Machine.along_append.mp hok).1
    obtain ⟨f, hf, hcn, htime⟩ := (heldNow_update hrugby _).2 e he
    obtain ⟨k, hk, hstart, hsince⟩ := htimed.since e.flag f e.cn hf hcn
    exact ⟨k, hk, by omega, hsince⟩
  refused bs cs cn i version has hrefused := by
    subst has
    obtain ⟨-, hfair, -⟩ := Machine.along_append.mp hok
    generalize Machine.run (next R) s₀ bs = s at hfair hrefused
    show (if (s.clients cn).connected then s.takeflag R cn i version else s) = s
    split
    · rename_i hcon
      have hrun := hfair.1 cn i version rfl hcon
      have htaking := takeflag_spec (R := R) s cn i version
      generalize s.takeflag R cn i version = s' at htaking
      cases htaking with
      | ignored => rfl
      | @refused k f hreq hdecide =>
        obtain ⟨-, -, hf, -⟩ := requested_eq_some hreq
        exact modifyFlag_started hf (hrun k f hreq hdecide)
      | taken hreq hdecide => exact absurd (hrefused _ _ hreq) (by rw [hdecide]; exact nofun)
      | scored hreq hdecide => exact absurd (hrefused _ _ hreq) hdecide.1
    · rfl

/-- The hold mode. -/
def holdRules : Rules := { ctfRules with mHold := true, rugbyEnabled := 1 }

theorem held_long_enough_taken : HoldsTrue holdRules emptyPitch
    [.initflags [(0, ⟨0, 0, 0⟩)] true, .takeflag 1 0 1, .tick 20000 20000, .update] :=
  held_long_enough rfl rfl rfl (by
    refine ⟨⟨?_, trivial⟩, ⟨?_, trivial⟩, ⟨?_, trivial⟩, ⟨?_, trivial⟩, trivial⟩
    · rintro cn i version ⟨⟩
    · rintro cn i version ⟨⟩ - k f hreq hdecide
      obtain ⟨-, hi, hf, -⟩ := requested_eq_some hreq
      obtain ⟨⟩ : 0 = k := Int.ofNat_inj.mp hi
      have htaken : ∀ f ∈ (next holdRules emptyPitch (.initflags [(0, ⟨0, 0, 0⟩)] true)).flags,
          decide holdRules (next holdRules emptyPitch (.initflags [(0, ⟨0, 0, 0⟩)] true)) 1 f 1 =
            .take := by decide
      exact absurd (hdecide.symm.trans (htaken f (List.mem_of_getElem? hf))) nofun
    · rintro cn i version ⟨⟩
    · rintro cn i version ⟨⟩)

/-- A client asks for a version of the flag that is gone: its request is refused, but starts the
hold clock. Twenty seconds later another takes the flag, and scores at once. -/
theorem scored_at_once : emptyPitch.flags = [] ∧ ¬ HoldsTrue holdRules emptyPitch
    [.initflags [(0, ⟨0, 0, 0⟩)] true, .takeflag 0 0 0, .tick 20000 20000, .takeflag 1 0 1, .update] := by
  refine ⟨rfl, fun h => ?_⟩
  obtain ⟨k, hk, htime, hsince⟩ := h.scored [.initflags [(0, ⟨0, 0, 0⟩)] true, .takeflag 0 0 0,
    .tick 20000 20000, .takeflag 1 0 1] [] rfl ⟨0, 1⟩ (by decide)
  rcases Nat.lt_or_ge 2 k with hlate | hearly
  · -- the flag has been taken only now
    have hnow : k = 3 ∨ k = 4 := by
      simp only [List.length_cons, List.length_nil] at hk
      omega
    rcases hnow with rfl | rfl <;> exact absurd htime (by decide)
  · obtain ⟨f, cn, hf, hcn, -⟩ := hsince 2 hearly (by decide)
    have hunowned : ∀ f ∈ (Machine.run (next holdRules) emptyPitch
        [.initflags [(0, ⟨0, 0, 0⟩)] true, .takeflag 0 0 0]).flags, f.owner = none := by decide
    rw [hunowned f (List.mem_of_getElem? hf)] at hcn
    cases hcn

end Ctf

end Zuckerserv

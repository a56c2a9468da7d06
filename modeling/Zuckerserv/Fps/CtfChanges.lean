import Mathlib.Algebra.Order.Group.Int
import Zuckerserv.Fps.Ctf
import Zuckerserv.Lib.Pointwise

/-!
# What happens to the flags

What one action of the flag modes can do to the flags, said once for each function: only
`takeflag` and `pass_flag` give a flag to a client; everything else leaves it alone or takes
it away, and what changes visibly gets a new version.

* `Flag.Tame` — no new owner, and no visible change without a new version.
* `Flag.Calm` — besides, the hold clock is left alone or stopped.
* `Ctf.Calm` — this for all flags, and nothing else has changed but scores.
* `takeflag_spec`, `pass_flag_spec` — the two functions that give flags away.
-/

namespace Zuckerserv

namespace Ctf

variable {R : Rules}

/-! ## One flag -/

/-- The version does not go back, and is a new one if what can be seen of the flag changes. -/
structure Flag.Versioned (f f' : Flag) : Prop where
  le : f.version ≤ f'.version
  same : f'.version = f.version →
    f'.owner = f.owner ∧ f'.droploc = f.droploc ∧ f'.droptime = f.droptime

/-- Besides, the flag gets no new owner. -/
structure Flag.Tame (f f' : Flag) : Prop extends Flag.Versioned f f' where
  released : ∀ c, f'.owner = some c → f.owner = some c

/-- Besides, the hold clock is not touched but where the flag is taken away. -/
structure Flag.Calm (f f' : Flag) : Prop extends Flag.Tame f f' where
  clock : f'.owner ≠ none → f'.starttimemssameteaminarow = f.starttimemssameteaminarow
  stopped : f'.owner = none → f'.starttimemssameteaminarow = 0 ∨
    f.owner = none ∧ f'.starttimemssameteaminarow = f.starttimemssameteaminarow

namespace Flag

theorem Versioned.refl (f : Flag) : f.Versioned f := ⟨le_rfl, fun _ => ⟨rfl, rfl, rfl⟩⟩

theorem Versioned.trans {a b c : Flag} (h : a.Versioned b) (h' : b.Versioned c) :
    a.Versioned c := by
  refine ⟨h.le.trans h'.le, fun heq => ?_⟩
  have hab : b.version = a.version := le_antisymm (heq ▸ h'.le) h.le
  obtain ⟨ho, hl, ht⟩ := h.same hab
  obtain ⟨ho', hl', ht'⟩ := h'.same (heq.trans hab.symm)
  exact ⟨ho'.trans ho, hl'.trans hl, ht'.trans ht⟩

/-- A new version excuses every change. -/
theorem Versioned.of_lt {f f' : Flag} (h : f.version < f'.version) : f.Versioned f' :=
  ⟨h.le, fun heq => absurd heq h.ne'⟩

theorem Tame.refl (f : Flag) : f.Tame f := ⟨.refl f, fun _ h => h⟩

theorem Tame.trans {a b c : Flag} (h : a.Tame b) (h' : b.Tame c) : a.Tame c :=
  ⟨h.toVersioned.trans h'.toVersioned, fun d hd => h.released d (h'.released d hd)⟩

theorem Calm.refl (f : Flag) : f.Calm f := by
  refine ⟨.refl f, fun _ => rfl, fun h => .inr ⟨h, rfl⟩⟩

theorem Calm.trans {a b c : Flag} (h : a.Calm b) (h' : b.Calm c) : a.Calm c := by
  refine ⟨h.toTame.trans h'.toTame, fun hc => ?_, fun hc => ?_⟩
  · have hb : b.owner ≠ none := by
      obtain ⟨d, hd⟩ := Option.ne_none_iff_exists'.mp hc
      rw [h'.released d hd]
      exact Option.some_ne_none d
    rw [h'.clock hc, h.clock hb]
  · rcases h'.stopped hc with hzero | ⟨hb, heq⟩
    · exact .inl hzero
    · rw [heq]
      exact h.stopped hb

theorem version_lt_bump (f : Flag) : f.version < f.bump.version := Int.lt_add_one_of_le le_rfl

/-- A flag that is taken away, with a new version. -/
theorem Calm.away {f f' : Flag} (hversion : f.version < f'.version) (howner : f'.owner = none)
    (hclock : f'.starttimemssameteaminarow = 0) : f.Calm f' where
  toTame := ⟨.of_lt hversion, fun c hc => by
    rw [howner] at hc
    cases hc⟩
  clock h := absurd howner h
  stopped _ := .inl hclock

/-- A flag that keeps its owner and its clock, with or without a new version. -/
theorem Calm.still {f f' : Flag} (hversion : f.Versioned f') (howner : f'.owner = f.owner)
    (hclock : f'.starttimemssameteaminarow = f.starttimemssameteaminarow) : f.Calm f' where
  toTame := ⟨hversion, fun _ hc => howner ▸ hc⟩
  clock _ := hclock
  stopped h := .inr ⟨howner ▸ h, hclock⟩

theorem calm_bump (f : Flag) : f.Calm f.bump := .still (.of_lt f.version_lt_bump) rfl rfl

theorem calm_forget (f : Flag) : f.Calm f.forget := .still ⟨le_rfl, fun _ => ⟨rfl, rfl, rfl⟩⟩ rfl rfl

theorem calm_returned (f : Flag) (invistime : Int) : f.Calm (f.returned invistime).bump :=
  .away f.version_lt_bump rfl rfl

theorem calm_leave (R : Rules) (s : Ctf) (cn : Cn) (dropper : Option Cn) (f : Flag) :
    f.Calm (f.leave R s cn dropper) ∧ (f.leave R s cn dropper).owner = none := by
  unfold leave
  dsimp only
  split
  · exact ⟨f.calm_returned 0, rfl⟩
  · exact ⟨.away f.version_lt_bump rfl rfl, rfl⟩

end Flag

/-! ## All flags -/

/-- The flags have changed calmly, and nothing else but the scores. -/
structure Calm (s s' : Ctf) : Prop where
  flags : List.Forall₂ Flag.Calm s.flags s'.flags
  rest : s' = { s with flags := s'.flags, scores := s'.scores, gamelimit := s'.gamelimit }

namespace Calm

variable {s s' s'' : Ctf}

theorem refl (s : Ctf) : s.Calm s := ⟨List.forall₂_same.mpr fun f _ => .refl f, rfl⟩

theorem trans (h : s.Calm s') (h' : s'.Calm s'') : s.Calm s'' :=
  ⟨Pointwise.forall₂_trans (r := Flag.Calm) (fun _ _ _ => .trans) h.flags h'.flags, by
    rw [h'.rest, h.rest]⟩

theorem clients (h : s.Calm s') : s'.clients = s.clients := by rw [h.rest]

theorem totalmillis (h : s.Calm s') : s'.totalmillis = s.totalmillis := by rw [h.rest]

theorem map {g : Flag → Flag} (s : Ctf) (h : ∀ f : Flag, f.Calm (g f)) :
    s.Calm { s with flags := s.flags.map g } :=
  ⟨Pointwise.forall₂_map_self _ fun f _ => h f, rfl⟩

theorem modifyFlag (s : Ctf) (i : Nat) {g : Flag → Flag} (h : ∀ f : Flag, f.Calm (g f)) :
    s.Calm (s.modifyFlag i g) :=
  ⟨Pointwise.forall₂_modify Flag.Calm.refl _ i fun f _ => h f, rfl⟩

end Calm

theorem calm_dropflag (s : Ctf) (cn : Cn) (dropper : Option Cn) :
    s.Calm (s.dropflag R cn dropper) := by
  unfold dropflag
  split
  · exact .refl s
  · refine .map s fun f => ?_
    split
    · exact (f.calm_leave R s cn dropper).1
    · exact .refl f

theorem calm_forgetdropper (s : Ctf) (cn : Cn) : s.Calm (s.forgetdropper cn) := by
  refine .map s fun f => ?_
  split
  · exact f.calm_forget
  · exact .refl f

theorem calm_leavegame (s : Ctf) (cn : Cn) : s.Calm (s.leavegame R cn) :=
  (calm_dropflag s cn none).trans (calm_forgetdropper _ cn)

theorem calm_died (s : Ctf) (cn : Cn) (actor : Option Cn) : s.Calm (s.died R cn actor) :=
  (calm_dropflag s cn _).trans (calm_forgetdropper _ cn)

/-! ## Scores and resets -/

/-- Nothing but flags, scores and the limit of the game has changed. -/
def FlagsOnly (s s' : Ctf) : Prop :=
  s' = { s with flags := s'.flags, scores := s'.scores, gamelimit := s'.gamelimit }

theorem FlagsOnly.trans {s s' s'' : Ctf} (h : s.FlagsOnly s') (h' : s'.FlagsOnly s'') :
    s.FlagsOnly s'' := by
  unfold FlagsOnly at *
  rw [h', h]

theorem FlagsOnly.ite {s a b : Ctf} {p : Prop} [Decidable p] (ha : s.FlagsOnly a)
    (hb : s.FlagsOnly b) : s.FlagsOnly (if p then a else b) := by
  split
  · exact ha
  · exact hb

theorem FlagsOnly.modifyFlag {s s' : Ctf} (h : s.FlagsOnly s') (i : Nat) (g : Flag → Flag) :
    s.FlagsOnly (s'.modifyFlag i g) := h.trans rfl

theorem FlagsOnly.addscore {s s' : Ctf} (h : s.FlagsOnly s') (team score : Int) :
    s.FlagsOnly (s'.addscore team score) := h.trans (.ite rfl (.ite rfl rfl))

theorem FlagsOnly.spawnflag {s s' : Ctf} (h : s.FlagsOnly s') (i : Nat) :
    s.FlagsOnly (s'.spawnflag R i) := h.trans (.ite rfl rfl)

theorem flagsOnly_scoreflag (s : Ctf) (cn : Cn) (goal : Nat) (relay : Option Nat) :
    s.FlagsOnly (s.scoreflag R cn goal relay) := by
  have hrefl : s.FlagsOnly s := rfl
  have hscore := (hrefl.modifyFlag (relay.getD goal) fun f =>
    f.returned (if R.mProtect then s.lastmillis else 0)).addscore (ctfteamflag (s.team cn)) 1
  have hspawn := FlagsOnly.ite (p := R.mHold) (hscore.spawnflag (R := R) goal) hscore
  unfold scoreflag
  dsimp only
  cases relay with
  | none =>
    have hgoal := hspawn.modifyFlag goal Flag.bump
    exact .ite (hgoal.trans rfl) hgoal
  | some j =>
    have hgoal := (hspawn.modifyFlag j Flag.bump).modifyFlag goal Flag.bump
    exact .ite (hgoal.trans rfl) hgoal

@[simp] theorem addscore_flags (s : Ctf) (team score : Int) :
    (s.addscore team score).flags = s.flags := by
  unfold addscore
  split_ifs <;> rfl

/-- `spawnflag` changes one flag, and only its place to spawn. -/
theorem spawnflag_flags (s : Ctf) (i : Nat) :
    ∃ g : Flag → Flag, (s.spawnflag R i).flags = s.flags.modify i g ∧
      ∀ f, g f = { f with spawnindex := (g f).spawnindex } := by
  unfold spawnflag
  split
  · exact ⟨id, (List.modify_id ..).symm, fun _ => rfl⟩
  · exact ⟨_, rfl, fun _ => rfl⟩

/-- A flag that has been returned, whatever its place to spawn, with a new version. -/
theorem Flag.calm_respawned (f : Flag) (invistime : Int) {g : Flag → Flag}
    (h : ∀ f, g f = { f with spawnindex := (g f).spawnindex }) :
    f.Calm (g (f.returned invistime)).bump := by
  rw [h]
  exact .away f.version_lt_bump rfl rfl

theorem Flag.calm_spawned (f : Flag) {g : Flag → Flag}
    (h : ∀ f, g f = { f with spawnindex := (g f).spawnindex }) : f.Calm (g f).bump := by
  rw [h]
  exact .still (.of_lt f.version_lt_bump) rfl rfl

/-- `scoreflag` returns one flag, and gives a new version to that one and to the goal. -/
theorem scoreflag_flags (s : Ctf) (cn : Cn) (goal : Nat) (relay : Option Nat) :
    ∃ (invistime : Int) (g : Flag → Flag),
      (∀ f, g f = { f with spawnindex := (g f).spawnindex }) ∧
      (s.scoreflag R cn goal relay).flags = match relay with
        | none => s.flags.modify goal fun f => (g (f.returned invistime)).bump
        | some j => (((s.flags.modify j fun f => f.returned invistime).modify goal g).modify j
            Flag.bump).modify goal Flag.bump := by
  refine ⟨if R.mProtect then s.lastmillis else 0, ?_⟩
  let t := (s.modifyFlag (relay.getD goal) fun f =>
    f.returned (if R.mProtect then s.lastmillis else 0)).addscore (ctfteamflag (s.team cn)) 1
  obtain ⟨g, hflags, hg⟩ : ∃ g : Flag → Flag, (if R.mHold then t.spawnflag R goal else t).flags =
      t.flags.modify goal g ∧ ∀ f, g f = { f with spawnindex := (g f).spawnindex } := by
    split
    · exact spawnflag_flags t goal
    · exact ⟨id, (List.modify_id ..).symm, fun _ => rfl⟩
  refine ⟨g, hg, ?_⟩
  have ht : t.flags = s.flags.modify (relay.getD goal) fun f =>
    f.returned (if R.mProtect then s.lastmillis else 0) := addscore_flags ..
  rw [ht] at hflags
  unfold scoreflag
  dsimp only
  rw [apply_ite Ctf.flags, ite_self]
  cases relay with
  | none =>
    show (Ctf.flags _).modify goal Flag.bump = _
    rw [hflags, Option.getD_none, List.modify_modify_eq, List.modify_modify_eq]
    rfl
  | some j =>
    show ((Ctf.flags _).modify j Flag.bump).modify goal Flag.bump = _
    rw [hflags]
    rfl

/-- The flags after a score. -/
theorem forall₂_scoreflag (s : Ctf) (cn : Cn) (goal : Nat) (relay : Option Nat) :
    List.Forall₂ Flag.Calm s.flags (s.scoreflag R cn goal relay).flags := by
  obtain ⟨invistime, g, hg, hflags⟩ := scoreflag_flags (R := R) s cn goal relay
  rw [hflags]
  cases relay with
  | none =>
    exact Pointwise.forall₂_modify Flag.Calm.refl _ goal fun f _ => f.calm_respawned invistime hg
  | some j =>
    dsimp only
    by_cases hj : j = goal
    · subst hj
      rw [List.modify_modify_eq, List.modify_modify_eq, List.modify_modify_eq]
      refine Pointwise.forall₂_modify Flag.Calm.refl _ j fun f _ => ?_
      exact (f.calm_respawned invistime hg).trans (Flag.calm_bump _)
    · rw [List.modify_modify_ne _ _ _ (Ne.symm hj), List.modify_modify_eq, List.modify_modify_eq]
      refine Pointwise.forall₂_trans (r := Flag.Calm) (fun _ _ _ => .trans)
        (Pointwise.forall₂_modify Flag.Calm.refl _ j fun f _ => f.calm_returned invistime) ?_
      exact Pointwise.forall₂_modify Flag.Calm.refl _ goal fun f _ => f.calm_spawned hg

theorem calm_scoreflag (s : Ctf) (cn : Cn) (goal : Nat) (relay : Option Nat) :
    s.Calm (s.scoreflag R cn goal relay) :=
  ⟨forall₂_scoreflag s cn goal relay, flagsOnly_scoreflag s cn goal relay⟩

/-! ## The update -/

/-- The contract of calm changes. -/
def calm : Contract Ctf Held where
  rel s _ s' := s.Calm s'
  refl := .refl
  trans h h' := h.trans h'

/-- A flag gets another place to spawn, and a new version. -/
theorem calm_respawn (s : Ctf) (i : Nat) :
    s.Calm ((s.spawnflag R i).modifyFlag i Flag.bump) := by
  have hrefl : s.FlagsOnly s := rfl
  obtain ⟨g, hflags, hg⟩ := spawnflag_flags (R := R) s i
  refine ⟨?_, (hrefl.spawnflag i).modifyFlag i _⟩
  show List.Forall₂ Flag.Calm s.flags ((s.spawnflag R i).flags.modify i Flag.bump)
  rw [hflags, List.modify_modify_eq]
  exact Pointwise.forall₂_modify Flag.Calm.refl _ i fun f _ => f.calm_spawned hg

/-- A flag is returned, gets another place to spawn in the hold mode, and a new version. -/
theorem calm_return (s : Ctf) (i : Nat) (invistime : Int) :
    let t := s.modifyFlag i fun f => f.returned invistime
    s.Calm ((if R.mHold then t.spawnflag R i else t).modifyFlag i Flag.bump) := by
  intro t
  have hrefl : s.FlagsOnly s := rfl
  have ht : s.FlagsOnly t := hrefl.modifyFlag i _
  obtain ⟨g, hflags, hg⟩ : ∃ g : Flag → Flag, (if R.mHold then t.spawnflag R i else t).flags =
      t.flags.modify i g ∧ ∀ f, g f = { f with spawnindex := (g f).spawnindex } := by
    split
    · exact spawnflag_flags t i
    · exact ⟨id, (List.modify_id ..).symm, fun _ => rfl⟩
  refine ⟨?_, (FlagsOnly.ite (ht.spawnflag i) ht).modifyFlag i _⟩
  show List.Forall₂ Flag.Calm s.flags (List.modify (Ctf.flags _) i Flag.bump)
  rw [hflags, List.modify_modify_eq]
  show List.Forall₂ Flag.Calm s.flags ((s.flags.modify i _).modify i _)
  rw [List.modify_modify_eq]
  exact Pointwise.forall₂_modify Flag.Calm.refl _ i fun f _ => f.calm_respawned invistime hg

theorem calm_addscore (s : Ctf) (team score : Int) : s.Calm (s.addscore team score) := by
  have hrefl : s.FlagsOnly s := rfl
  refine ⟨?_, hrefl.addscore team score⟩
  rw [addscore_flags]
  exact (Calm.refl s).flags

theorem calm_resetflag (i : Nat) : calm.Meets (resetflag R i) := by
  intro s
  change s.Calm (resetflag R i s).1
  unfold resetflag Prog.modify Prog.act
  dsimp only
  split
  · exact .refl s
  · split
    · have hreturn := calm_return (R := R) s i (if R.mProtect then s.lastmillis else 0)
      dsimp only at hreturn ⊢
      split
      · rename_i hhold
        rwa [if_pos hhold] at hreturn
      · rename_i hhold
        rw [if_neg hhold] at hreturn
        exact hreturn.trans (calm_addscore _ _ _)
    · exact .refl s

theorem calm_showflag (i : Nat) : calm.Meets (showflag R i) := by
  refine fun s => .modifyFlag s i fun f => ?_
  split
  · exact .still ⟨le_rfl, fun _ => ⟨rfl, rfl, rfl⟩⟩ rfl rfl
  · exact .refl f

theorem calm_update : calm.Meets (update R) := by
  refine .choose fun s => .ite .skip (.each fun i =>
    .seq (calm_resetflag i) (.seq (calm_showflag i) ?_))
  refine .choose fun s => ?_
  split
  · exact .skip
  · rename_i cn _
    exact .ite (fun t => calm_scoreflag t cn i none) fun t => calm_respawn t i

/-! ## Flags that are given away -/

/-- The hold clock of a flag is started, if it does not run. -/
def Flag.started (f : Flag) (totalmillis : Int) : Flag :=
  if f.starttimemssameteaminarow = 0 then { f with starttimemssameteaminarow := totalmillis } else f

/-- The flag after it has been taken. -/
def Flag.taken (f : Flag) (s : Ctf) (cn : Cn) : Flag :=
  let f := ((f.started s.totalmillis).own s.team cn s.lastmillis s.totalmillis).bump
  if f.drops = 0 then { f with tmillis := s.totalmillis } else f

/-- A flag that is requested is there, and the one who requests it is alive. -/
theorem requested_eq_some {s : Ctf} {cn : Cn} {i : Int} {k : Nat} {f : Flag}
    (h : s.requested cn i = some (k, f)) :
    s.notgotflags = false ∧ i = k ∧ s.flags[k]? = some f ∧ (s.clients cn).state = .ALIVE := by
  unfold requested at h
  split_ifs at h with hchecks
  simp only [not_or, not_not] at hchecks
  obtain ⟨hgot, hi, halive, -⟩ := hchecks
  obtain ⟨f', hf', heq⟩ := Option.map_eq_some_iff.mp h
  obtain ⟨rfl, rfl⟩ := Prod.mk.inj heq
  exact ⟨by simpa using hgot, (Int.toNat_of_nonneg (not_lt.mp hi)).symm, hf', halive⟩

theorem modifyFlag_modifyFlag (s : Ctf) (i : Nat) (f g : Flag → Flag) :
    (s.modifyFlag i f).modifyFlag i g = s.modifyFlag i fun x => g (f x) := by
  unfold modifyFlag
  dsimp only
  rw [List.modify_modify_eq]
  rfl

/-- What `takeflag` does. -/
inductive Taking (R : Rules) (s : Ctf) (cn : Cn) (i version : Int) : Ctf → Prop
  /-- The first line of the code refuses the request. -/
  | ignored (h : s.requested cn i = none) : Taking R s cn i version s
  /-- The request is refused later: the hold clock has been started. -/
  | refused {k : Nat} {f : Flag} (h : s.requested cn i = some (k, f))
      (hdecide : s.decide R cn f version = .refused) :
      Taking R s cn i version (s.modifyFlag k (·.started s.totalmillis))
  /-- The flag is taken. -/
  | taken {k : Nat} {f : Flag} (h : s.requested cn i = some (k, f))
      (hdecide : s.decide R cn f version = .take) :
      Taking R s cn i version (s.modifyFlag k (·.taken s cn))
  /-- A flag is returned, or scored: the one requested gets a new version. -/
  | scored {k : Nat} {f f' : Flag} {s' : Ctf} (h : s.requested cn i = some (k, f))
      (hdecide : s.decide R cn f version ≠ .refused ∧ s.decide R cn f version ≠ .take)
      (hcalm : (s.modifyFlag k (·.started s.totalmillis)).Calm s')
      (hf' : s'.flags[k]? = some f') (hversion : f.version < f'.version) :
      Taking R s cn i version s'

/-- The goal of a score gets a new version. -/
theorem scoreflag_version (s : Ctf) (cn : Cn) {goal : Nat} (relay : Option Nat) {f : Flag}
    (hf : s.flags[goal]? = some f) :
    ∃ f', (s.scoreflag R cn goal relay).flags[goal]? = some f' ∧ f.version < f'.version := by
  obtain ⟨invistime, g, hg, hflags⟩ := scoreflag_flags (R := R) s cn goal relay
  have hspawned (f : Flag) : (g f).version = f.version := by rw [hg]
  rw [hflags]
  cases relay with
  | none =>
    refine ⟨(g (f.returned invistime)).bump, ?_, ?_⟩
    · rw [List.getElem?_modify_eq, hf]
      rfl
    · show f.version < (g (f.returned invistime)).version + 1
      rw [hspawned]
      exact f.version_lt_bump
  | some j =>
    dsimp only
    rw [List.getElem?_modify_eq]
    by_cases hj : j = goal
    · subst hj
      refine ⟨(g (f.returned invistime)).bump.bump, ?_, ?_⟩
      · rw [List.getElem?_modify_eq, List.getElem?_modify_eq, List.getElem?_modify_eq, hf]
        rfl
      · show f.version < (g (f.returned invistime)).version + 1 + 1
        rw [hspawned]
        exact (f.version_lt_bump).trans (Flag.version_lt_bump _)
    · refine ⟨(g f).bump, ?_, ?_⟩
      · rw [List.getElem?_modify_ne _ _ hj, List.getElem?_modify_eq, List.getElem?_modify_ne _ _ hj, hf]
        rfl
      · show f.version < (g f).version + 1
        rw [hspawned]
        exact f.version_lt_bump

theorem takeflag_spec (s : Ctf) (cn : Cn) (i version : Int) :
    Taking R s cn i version (s.takeflag R cn i version) := by
  unfold takeflag
  cases h : s.requested cn i with
  | none => exact .ignored h
  | some p =>
    obtain ⟨k, f⟩ := p
    obtain ⟨-, -, hf, -⟩ := requested_eq_some h
    have hstarted : (s.modifyFlag k (·.started s.totalmillis)).flags[k]? =
        some (f.started s.totalmillis) := by
      show (s.flags.modify k _)[k]? = _
      rw [List.getElem?_modify_eq, hf]
      rfl
    have hversion : (f.started s.totalmillis).version = f.version := by
      unfold Flag.started
      split <;> rfl
    dsimp only
    cases hdecide : s.decide R cn f version with
    | refused => exact .refused h hdecide
    | take =>
      have hboth : (s.modifyFlag k (·.started s.totalmillis)).modifyFlag k (fun f =>
          let f := (f.own s.team cn s.lastmillis s.totalmillis).bump
          if f.drops = 0 then { f with tmillis := s.totalmillis } else f) =
          s.modifyFlag k (·.taken s cn) := modifyFlag_modifyFlag ..
      have htaken : Taking R s cn i version (s.modifyFlag k (·.taken s cn)) := .taken h hdecide
      rw [← hboth] at htaken
      exact htaken
    | score =>
      obtain ⟨f', hf', hlt⟩ := scoreflag_version (R := R) _ cn none hstarted
      exact .scored h (by rw [hdecide]; exact ⟨Outcome.noConfusion, Outcome.noConfusion⟩)
        (calm_scoreflag _ cn k none) hf' (hversion ▸ hlt)
    | giveback =>
      refine @Taking.scored R s cn i version k f ((f.started s.totalmillis).returned 0).bump _ h ?_
        (.modifyFlag _ k fun f => f.calm_returned 0) ?_ ?_
      · rw [hdecide]
        exact ⟨Outcome.noConfusion, Outcome.noConfusion⟩
      · show (List.modify _ k _)[k]? = some ((f.started s.totalmillis).returned 0).bump
        rw [List.getElem?_modify_eq]
        exact congrArg (Option.map _) hstarted
      · show f.version < (f.started s.totalmillis).version + 1
        rw [hversion]
        exact f.version_lt_bump
    | relay j =>
      obtain ⟨f', hf', hlt⟩ := scoreflag_version (R := R) _ cn (some j) hstarted
      exact .scored h (by rw [hdecide]; exact ⟨Outcome.noConfusion, Outcome.noConfusion⟩)
        (calm_scoreflag _ cn k (some j)) hf' (hversion ▸ hlt)

/-! ## Actions -/

/-- The state after an action. -/
def next (R : Rules) (s : Ctf) (a : Action) : Ctf := (step R a s).1

/-- Before the flags are known there are none. -/
def Start (s : Ctf) : Prop := s.notgotflags = true → s.flags = []

theorem Start.of_forall₂ {s s' : Ctf} (h : Start s) {r : Flag → Flag → Prop}
    (hflags : List.Forall₂ r s.flags s'.flags) (hgot : s'.notgotflags = s.notgotflags) :
    Start s' := by
  intro hnot
  rw [h (hgot ▸ hnot)] at hflags
  exact List.forall₂_nil_left_iff.mp hflags

/-- The actions that may give a flag to a client, or bring the flags of the map. -/
def Action.Gives : Action → Prop
  | .takeflag .. | .passflag .. | .initflags .. => True
  | _ => False

/-- The flags have changed calmly; the clients may have changed as well. -/
structure Ordinary (s s' : Ctf) : Prop where
  flags : List.Forall₂ Flag.Calm s.flags s'.flags
  notgotflags : s'.notgotflags = s.notgotflags

namespace Ordinary

variable {s s' : Ctf}

theorem refl (s : Ctf) : s.Ordinary s := ⟨(Calm.refl s).flags, rfl⟩

theorem of_calm (h : s.Calm s') : s.Ordinary s' := ⟨h.flags, by rw [h.rest]⟩

theorem modifyClient (h : s.Ordinary s') (cn : Cn) (f : Client → Client) :
    s.Ordinary (s'.modifyClient cn f) := ⟨h.flags, h.notgotflags⟩

theorem ite {a b : Ctf} {p : Prop} [Decidable p] (ha : s.Ordinary a) (hb : s.Ordinary b) :
    s.Ordinary (if p then a else b) := by
  split
  · exact ha
  · exact hb

end Ordinary

theorem ordinary_suicide (s : Ctf) (cn : Cn) (prevented : Bool) :
    s.Ordinary (s.suicide R cn prevented) :=
  .ite (.refl s) ((Ordinary.of_calm (calm_died s cn none)).modifyClient cn _)

/-- The actions that give no flag away leave the flags alone or take them away. -/
theorem step_ordinary (s : Ctf) {a : Action} (ha : ¬ a.Gives) : s.Ordinary (step R a s).1 := by
  have hleave (cn : Cn) (f : Client → Client) :
      s.Ordinary ((s.leavegame R cn).modifyClient cn f) :=
    (Ordinary.of_calm (calm_leavegame s cn)).modifyClient cn f
  have hkill (cn : Cn) (actor : Option Cn) : s.Ordinary (s.kill R cn actor) :=
    (Ordinary.of_calm (calm_died s cn actor)).modifyClient cn _
  have hrefl := Ordinary.refl s
  cases a with
  | takeflag cn i version => exact absurd trivial ha
  | passflag fromclientnum toclientnum => exact absurd trivial ha
  | initflags list commit => exact absurd trivial ha
  | trydropflag cn => exact .ite (.of_calm (calm_dropflag s cn none)) hrefl
  | kill target actor => exact .ite (hkill target _) hrefl
  | suicide cn prevented => exact ordinary_suicide s cn prevented
  | slay cn => exact .ite (hrefl.modifyClient cn _) hrefl
  | fakedamage target actor =>
    cases actor with
    | some actor => exact hkill target (some actor)
    | none => exact hrefl.modifyClient target fun ci => { ci with state := .DEAD }
  | changeteam cn team dosuicide prevented =>
    exact .ite ((Ordinary.ite (ordinary_suicide s cn prevented) hrefl).modifyClient cn _) hrefl
  | botteam cn team =>
    exact (Ordinary.ite (p := (s.clients cn).state = .ALIVE)
      (.of_calm (calm_dropflag s cn none)) hrefl).modifyClient cn fun ci => { ci with team := team }
  | spectator cn val =>
    exact .ite hrefl (.ite (hleave cn _) (.ite (hrefl.modifyClient cn _) hrefl))
  | connect cn state team => exact .ite hrefl (hrefl.modifyClient cn _)
  | disconnect cn => exact .ite (hleave cn _) hrefl
  | spawn cn => exact .ite (hrefl.modifyClient cn _) hrefl
  | lagged cn val => exact .ite (hrefl.modifyClient cn _) (.ite (hrefl.modifyClient cn _) hrefl)
  | move cn o => exact hrefl.modifyClient cn fun ci => { ci with o := o }
  | tick elapsedtime curtime => exact ⟨hrefl.flags, rfl⟩
  | update => exact .of_calm (calm_update s)

end Ctf

end Zuckerserv

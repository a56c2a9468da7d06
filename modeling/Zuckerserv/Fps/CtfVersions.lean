import Zuckerserv.Fps.CtfChanges
import Zuckerserv.Lib.Machine

/-!
# The versions of the flags

The version of a flag is a lock: a request to take it must carry the current one, and every
visible change makes a new one. Only the hold clock is written before the version is looked at.

* `versioned`, `versioned_step` — versions do not go back, and mark every visible change.
* `takeflag_stale` — a request with another version changes nothing but hold clocks.
* `NotStarted` — no request is refused after it has started a hold clock.
* `version_locks` — the lock, in any run.
* `refused_starts` — a request that is refused changes a flag, and so does the next one.
-/

namespace Zuckerserv

namespace Ctf

variable {R : Rules}

/-! ## Versions -/

/-- The contract of the versions: all flags stay, and their changes are versioned. -/
def versioned : Contract Ctf Held where
  rel s _ s' := Start s → Start s' ∧ ∀ (i : Nat) (f : Flag), s.flags[i]? = some f →
    ∃ f', s'.flags[i]? = some f' ∧ f.Versioned f'
  refl _ h := ⟨h, fun _ f hf => ⟨f, hf, .refl f⟩⟩
  trans h h' hs := by
    obtain ⟨hs', hflags⟩ := h hs
    obtain ⟨hs'', hflags'⟩ := h' hs'
    refine ⟨hs'', fun i f hf => ?_⟩
    obtain ⟨g, hg, hfg⟩ := hflags i f hf
    obtain ⟨f', hf', hgf⟩ := hflags' i g hg
    exact ⟨f', hf', hfg.trans hgf⟩

/-- All flags have changed in the way the versions allow. -/
theorem versionedAt_of_forall₂ {a : Action} {s : Ctf}
    (h : List.Forall₂ Flag.Versioned s.flags (step R a s).1.flags)
    (hgot : (step R a s).1.notgotflags = s.notgotflags) : versioned.MeetsAt (step R a) s := by
  show s.Start → _
  exact fun hs => ⟨hs.of_forall₂ h hgot, fun i f hf => Pointwise.exists_getElem?' h hf⟩

theorem Flag.versioned_started (f : Flag) (totalmillis : Int) :
    f.Versioned (f.started totalmillis) := by
  unfold started
  split
  · exact ⟨le_rfl, fun _ => ⟨rfl, rfl, rfl⟩⟩
  · exact .refl f

theorem Flag.version_lt_taken (f : Flag) (s : Ctf) (cn : Cn) :
    f.version < (f.taken s cn).version := by
  have hstarted : (f.started s.totalmillis).version = f.version := by
    unfold started
    split <;> rfl
  unfold taken
  dsimp only
  have hlt : f.version < (f.started s.totalmillis).version + 1 := by
    rw [hstarted]
    exact f.version_lt_bump
  split <;> exact hlt

theorem forall₂_modify_versioned (s : Ctf) (k : Nat) {g : Flag → Flag}
    (h : ∀ f : Flag, f.Versioned (g f)) :
    List.Forall₂ Flag.Versioned s.flags (s.modifyFlag k g).flags :=
  Pointwise.forall₂_modify Flag.Versioned.refl _ k fun f _ => h f

/-- Versions after a request to take a flag. -/
theorem Taking.versioned {s s' : Ctf} {cn : Cn} {i version : Int}
    (h : Taking R s cn i version s') :
    List.Forall₂ Flag.Versioned s.flags s'.flags ∧ s'.notgotflags = s.notgotflags := by
  cases h with
  | ignored h => exact ⟨List.forall₂_same.mpr fun f _ => .refl f, rfl⟩
  | refused h hdecide =>
    exact ⟨forall₂_modify_versioned s _ fun f => f.versioned_started _, rfl⟩
  | taken h hdecide =>
    exact ⟨forall₂_modify_versioned s _ fun f => .of_lt (f.version_lt_taken s cn), rfl⟩
  | @scored k f f' _ h hdecide hcalm hf' hversion =>
    have hstarted := forall₂_modify_versioned s k fun f => f.versioned_started s.totalmillis
    refine ⟨Pointwise.forall₂_trans (r := Flag.Versioned) (fun _ _ _ => .trans) hstarted
      (hcalm.flags.imp fun _ _ h => h.toVersioned), ?_⟩
    rw [hcalm.rest]
    rfl

theorem versioned_initflags (s : Ctf) (list : List (Int × Game.Vec)) (commit : Bool) :
    versioned.MeetsAt (step R (.initflags list commit)) s := by
  show s.Start → Start (s.parseflags R list commit) ∧ _
  intro hs
  by_cases hread : ¬ commit ∨ ¬ s.notgotflags
  · have hsame : (step R (.initflags list commit) s).1 = s := if_pos hread
    have hsame' : s.parseflags R list commit = s := if_pos hread
    rw [hsame, hsame']
    exact ⟨hs, fun i f hf => ⟨f, hf, .refl f⟩⟩
  · have hgot : (s.parseflags R list commit).notgotflags = false := by
      unfold parseflags
      rw [if_neg hread]
      split <;> rfl
    simp only [not_or, not_not] at hread
    refine ⟨fun h => absurd (hgot.symm.trans h) Bool.noConfusion, fun i f hf => ?_⟩
    rw [hs hread.2] at hf
    exact absurd hf (by simp)

theorem versioned_step (R : Rules) (a : Action) : versioned.Meets (step R a) := by
  intro s
  by_cases ha : a.Gives
  · cases a with
    | takeflag cn i version =>
      have htaking := (takeflag_spec (R := R) s cn i version).versioned
      by_cases hcon : (s.clients cn).connected = true
      · have hstep : (step R (.takeflag cn i version) s).1 = s.takeflag R cn i version := if_pos hcon
        refine versionedAt_of_forall₂ ?_ ?_
        · rw [hstep]
          exact htaking.1
        · rw [hstep]
          exact htaking.2
      · have hstep : (step R (.takeflag cn i version) s).1 = s := if_neg hcon
        refine versionedAt_of_forall₂ ?_ ?_
        · rw [hstep]
          exact List.forall₂_same.mpr fun f _ => .refl f
        · rw [hstep]
    | passflag fromclientnum toclientnum =>
      refine versionedAt_of_forall₂ (Pointwise.forall₂_map_self _ fun f _ => ?_) rfl
      split
      · exact .of_lt f.version_lt_bump
      · exact .refl f
    | initflags list commit => exact versioned_initflags s list commit
    | _ => exact absurd ha id
  · have hord := step_ordinary (R := R) s ha
    exact versionedAt_of_forall₂ (hord.flags.imp fun _ _ h => h.toVersioned) hord.notgotflags

/-! ## The lock -/

/-- The flags without their hold clocks, and the scores. -/
def seen (s : Ctf) : List Flag × (Int × Int) :=
  (s.flags.map fun f => { f with starttimemssameteaminarow := 0 }, s.scores)

/-- A flag or a score changes. -/
def Changes (R : Rules) (s : Ctf) (a : Action) : Prop :=
  (next R s a).flags ≠ s.flags ∨ (next R s a).scores ≠ s.scores

/-- What the versions are for, in a run. -/
structure VersionLock (R : Rules) (s₀ : Ctf) (as : List Action) : Prop where
  /-- At most one request for a version of a flag changes anything. -/
  once : ∀ (bs cs ds : List Action) (cn cn' : Cn) (i version : Int),
    as = bs ++ .takeflag cn i version :: (cs ++ .takeflag cn' i version :: ds) →
    Changes R (Machine.run (next R) s₀ bs) (.takeflag cn i version) →
    ¬ Changes R (Machine.run (next R) s₀ (bs ++ .takeflag cn i version :: cs))
      (.takeflag cn' i version)
  /-- No action changes a flag visibly without a new version. -/
  marked : ∀ (bs cs : List Action) (a : Action), as = bs ++ a :: cs →
    ∀ (i : Nat) (f : Flag), (Machine.run (next R) s₀ bs).flags[i]? = some f →
      ∃ f', (next R (Machine.run (next R) s₀ bs) a).flags[i]? = some f' ∧ f.Versioned f'
  /-- A request with another version changes nothing but hold clocks. -/
  stale : ∀ (bs cs : List Action) (cn : Cn) (i version : Int),
    as = bs ++ .takeflag cn i version :: cs →
    (∀ f, (Machine.run (next R) s₀ bs).flags[i.toNat]? = some f → f.version ≠ version) →
    seen (next R (Machine.run (next R) s₀ bs) (.takeflag cn i version)) =
      seen (Machine.run (next R) s₀ bs)

/-- No request that is refused after its first line finds the hold clock of its flag at rest. -/
def NotStarted (R : Rules) (s : Ctf) (a : Action) : Prop :=
  ∀ cn i version, a = .takeflag cn i version → (s.clients cn).connected = true →
    ∀ k f, s.requested cn i = some (k, f) → s.decide R cn f version = .refused →
      f.starttimemssameteaminarow ≠ 0 ∨ s.totalmillis = 0

theorem Flag.started_of_running {f : Flag} {totalmillis : Int}
    (h : f.starttimemssameteaminarow ≠ 0 ∨ totalmillis = 0) : f.started totalmillis = f := by
  unfold started
  by_cases hzero : f.starttimemssameteaminarow = 0
  · rw [if_pos hzero, h.resolve_left (not_not.mpr hzero), ← hzero]
  · rw [if_neg hzero]

/-- The clock of a flag that runs is not started. -/
theorem modifyFlag_started {s : Ctf} {k : Nat} {f : Flag} (hf : s.flags[k]? = some f)
    (h : f.starttimemssameteaminarow ≠ 0 ∨ s.totalmillis = 0) :
    s.modifyFlag k (·.started s.totalmillis) = s := by
  have hflags : s.flags.modify k (·.started s.totalmillis) = s.flags := by
    refine List.ext_getElem? fun j => ?_
    by_cases hj : k = j
    · subst hj
      rw [List.getElem?_modify_eq, hf]
      exact congrArg some (Flag.started_of_running h)
    · rw [List.getElem?_modify_ne _ _ hj]
  unfold modifyFlag
  rw [hflags]

/-- A request that is not refused carries the current version. -/
theorem version_of_decide {s : Ctf} {cn : Cn} {f : Flag} {version : Int}
    (h : s.decide R cn f version ≠ .refused) : f.version = version := by
  by_contra hne
  exact h (if_pos (.inr (.inr (.inl hne))))

/-- The hold clock is not among what is seen. -/
theorem seen_started (s : Ctf) (k : Nat) :
    seen (s.modifyFlag k (·.started s.totalmillis)) = seen s := by
  refine Prod.ext ?_ rfl
  show (s.flags.modify k _).map _ = s.flags.map _
  refine List.ext_getElem? fun j => ?_
  rw [List.getElem?_map, List.getElem?_map]
  by_cases hj : k = j
  · subst hj
    rw [List.getElem?_modify_eq]
    cases s.flags[k]? with
    | none => rfl
    | some f =>
      show some { f.started s.totalmillis with starttimemssameteaminarow := 0 } = _
      unfold Flag.started
      split <;> rfl
  · rw [List.getElem?_modify_ne _ _ hj]

theorem takeflag_stale (s : Ctf) (cn : Cn) {i version : Int}
    (h : ∀ f, s.flags[i.toNat]? = some f → f.version ≠ version) :
    seen (next R s (.takeflag cn i version)) = seen s := by
  have hrefused {k : Nat} {f : Flag} (hreq : s.requested cn i = some (k, f)) :
      s.decide R cn f version = .refused := by
    obtain ⟨-, rfl, hf, -⟩ := requested_eq_some hreq
    by_contra hdecide
    exact h f hf (version_of_decide hdecide)
  by_cases hcon : (s.clients cn).connected = true
  · have hnext : next R s (.takeflag cn i version) = s.takeflag R cn i version := if_pos hcon
    rw [hnext]
    have htaking := takeflag_spec (R := R) s cn i version
    generalize s.takeflag R cn i version = s' at htaking
    cases htaking with
    | ignored hreq => rfl
    | refused hreq hdecide => exact seen_started s _
    | taken hreq hdecide => rw [hrefused hreq] at hdecide; cases hdecide
    | scored hreq hdecide => exact absurd (hrefused hreq) hdecide.1
  · have hnext : next R s (.takeflag cn i version) = s := if_neg hcon
    rw [hnext]

/-- A request that changes something uses up the version it carries. -/
theorem version_of_changes {s : Ctf} {cn : Cn} {i version : Int}
    (hok : NotStarted R s (.takeflag cn i version))
    (h : Changes R s (.takeflag cn i version)) :
    ∃ f f' : Flag, s.flags[i.toNat]? = some f ∧ f.version = version ∧
      (next R s (.takeflag cn i version)).flags[i.toNat]? = some f' ∧ version < f'.version := by
  by_cases hcon : (s.clients cn).connected = true
  · have hnext : next R s (.takeflag cn i version) = s.takeflag R cn i version := if_pos hcon
    have hrun := hok cn i version rfl hcon
    have htaking := takeflag_spec (R := R) s cn i version
    unfold Changes at h
    rw [hnext] at h ⊢
    generalize s.takeflag R cn i version = s' at h htaking
    cases htaking with
    | ignored hreq => exact absurd h (by simp)
    | @refused k f hreq hdecide =>
      obtain ⟨-, -, hf, -⟩ := requested_eq_some hreq
      rw [modifyFlag_started hf (hrun k f hreq hdecide)] at h
      exact absurd h (by simp)
    | @taken k f hreq hdecide =>
      obtain ⟨-, rfl, hf, -⟩ := requested_eq_some hreq
      have hversion : f.version = version := version_of_decide (by rw [hdecide]; exact nofun)
      refine ⟨f, f.taken s cn, hf, hversion, ?_, hversion ▸ f.version_lt_taken s cn⟩
      show (s.flags.modify k _)[k]? = _
      rw [List.getElem?_modify_eq, hf]
      rfl
    | @scored k f f' _ hreq hdecide hcalm hf' hlt =>
      obtain ⟨-, rfl, hf, -⟩ := requested_eq_some hreq
      have hversion : f.version = version := version_of_decide hdecide.1
      exact ⟨f, f', hf, hversion, hf', hversion ▸ hlt⟩
  · have hnext : next R s (.takeflag cn i version) = s := if_neg hcon
    unfold Changes at h
    rw [hnext] at h
    exact absurd h (by simp)

/-- Over a whole run no flag is lost, and no version goes back. -/
theorem versioned_run {s : Ctf} (hs : s.Start) (as : List Action) {i : Nat} {f : Flag}
    (hf : s.flags[i]? = some f) :
    (Machine.run (next R) s as).Start ∧
      ∃ f', (Machine.run (next R) s as).flags[i]? = some f' ∧ f.Versioned f' := by
  induction as generalizing s f with
  | nil => exact ⟨hs, f, hf, .refl f⟩
  | cons a as ih =>
    obtain ⟨hnext, hflags⟩ := versioned_step R a s hs
    obtain ⟨g, hg, hfg⟩ := hflags i f hf
    obtain ⟨hrun, f', hf', hgf⟩ := ih hnext hg
    exact ⟨hrun, f', hf', hfg.trans hgf⟩

theorem start_run {s : Ctf} (hs : s.Start) (as : List Action) :
    (Machine.run (next R) s as).Start :=
  Machine.run_inv (fun s a hs => (versioned_step R a s hs).1) hs as

/-- The versions are a lock, in every run in which no request that is refused has started the
hold clock of a flag. -/
theorem version_locks {s₀ : Ctf} (hs₀ : s₀.Start) {as : List Action}
    (hok : Machine.Along (NotStarted R) (next R) s₀ as) : VersionLock R s₀ as where
  once bs cs ds cn cn' i version has hfirst hsecond := by
    subst has
    obtain ⟨-, hokfirst, hokrest⟩ := Machine.along_append.mp hok
    obtain ⟨-, hoksecond, -⟩ := Machine.along_append.mp hokrest
    obtain ⟨-, g, -, -, hg, hlt⟩ := version_of_changes hokfirst hfirst
    rw [Machine.run_append] at hsecond
    obtain ⟨f, -, hf, hversion, -⟩ := version_of_changes hoksecond hsecond
    have hmid := (versioned_step R (.takeflag cn i version) _ (start_run (R := R) hs₀ bs)).1
    obtain ⟨-, f', hf', hgf⟩ := versioned_run (R := R) hmid cs hg
    have hsame : f' = f := Option.some_inj.mp (hf'.symm.trans hf)
    exact absurd (hlt.trans_le hgf.le) (by rw [hsame, hversion]; exact lt_irrefl _)
  marked bs cs a _ i f hf := (versioned_step R a _ (start_run hs₀ bs)).2 i f hf
  stale bs cs cn i version _ h := takeflag_stale _ cn h

/-- The mode ctf. -/
def ctfRules : Rules where
  mHold := false
  mProtect := false
  ctftkpenalty := true
  rugbyEnabled := 0
  ctf_m_hold_HOLDSECS := 20000
  insidebase _ _ := false
  rnd _ _ := 0

/-- A flag of the team good at its base; a client of each team is in the game. -/
def pitch : Ctf where
  flags := [.fresh 1 ⟨0, 0, 0⟩ 0]
  notgotflags := false
  holdspawns := []
  scores := (0, 0)
  clients cn := ⟨cn < 2, .ALIVE, if cn = 0 then good else evil, ⟨0, 0, 0⟩⟩
  totalmillis := 1000
  lastmillis := 1000
  gamemillis := 1000
  gamelimit := 600000

theorem version_locks_pitch :
    VersionLock ctfRules pitch [.takeflag 1 0 0, .tick 30 30, .takeflag 0 0 0, .trydropflag 1] :=
  version_locks (fun h => absurd h (by decide)) (by
    refine ⟨?_, ?_, ?_, ?_, trivial⟩
    · rintro cn i version ⟨⟩ - k f hreq hdecide
      have hreq' : some (0, Flag.fresh 1 ⟨0, 0, 0⟩ 0) = some (k, f) := hreq
      obtain ⟨⟩ := hreq'
      exact absurd hdecide (by decide)
    · rintro cn i version ⟨⟩
    · rintro cn i version ⟨⟩ - k f hreq -
      refine .inl ?_
      obtain ⟨-, hi, hf, -⟩ := requested_eq_some hreq
      obtain ⟨⟩ : 0 = k := Int.ofNat_inj.mp hi
      have hclock : ∀ f ∈ (next ctfRules (next ctfRules pitch (.takeflag 1 0 0)) (.tick 30 30)).flags,
          f.starttimemssameteaminarow ≠ 0 := by decide
      exact hclock f (List.mem_of_getElem? hf)
    · rintro cn i version ⟨⟩)

/-- A client touches the flag of its own team at its base: the request is refused, but has
started the hold clock. The next request with the same version takes the flag. -/
theorem refused_starts :
    pitch.Start ∧ ¬ VersionLock ctfRules pitch [.takeflag 0 0 0, .takeflag 1 0 0] := by
  refine ⟨fun h => absurd h (by decide), fun h => ?_⟩
  exact h.once [] [] [] 0 1 0 0 rfl (.inl (by decide)) (.inl (by decide))

end Ctf

end Zuckerserv

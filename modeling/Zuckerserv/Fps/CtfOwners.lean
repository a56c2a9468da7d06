import Zuckerserv.Fps.CtfVersions

/-!
# The owners of the flags

Who has a flag has no other, and is in the game and alive, unless a command of the server has
gone past the rules of the mode.

* `Client.fit`, `Owned` — who may have a flag, and the invariant.
* `Keeps`, `step_keeps` — what gives no flag away keeps it.
* `Proper` — no command makes an owner unfit, or gives a flag to a client that is unfit.
* `owners_fit` — the invariant, in any run.
* `slain_owner` — `player_slay` leaves the flag with the dead.
-/

namespace Zuckerserv

namespace Ctf

variable {R : Rules}

/-- The client is in the game, and neither dead nor a spectator. -/
def Client.fit (ci : Client) : Prop :=
  ci.connected = true ∧ ci.state ≠ .DEAD ∧ ci.state ≠ .SPECTATOR

instance (ci : Client) : Decidable ci.fit := inferInstanceAs (Decidable (_ ∧ _ ∧ _))

/-- The client has a flag. -/
def owns (s : Ctf) (cn : Cn) : Prop := ∃ f ∈ s.flags, f.owner = some cn

instance (s : Ctf) (cn : Cn) : Decidable (s.owns cn) :=
  inferInstanceAs (Decidable (∃ f ∈ s.flags, _))

/-- No client has two flags, and the owners are fit. -/
structure Owned (s : Ctf) : Prop where
  one : ∀ (i j : Nat) (f g : Flag) (cn : Cn), s.flags[i]? = some f → s.flags[j]? = some g →
    f.owner = some cn → g.owner = some cn → i = j
  fit : ∀ cn, s.owns cn → (s.clients cn).fit

theorem Owned.of_unowned {s : Ctf} (h : ∀ f ∈ s.flags, f.owner = none) : Owned s where
  one i j f g cn hf _ hcn _ := by
    rw [h f (List.mem_of_getElem? hf)] at hcn
    cases hcn
  fit cn := by
    rintro ⟨f, hf, hcn⟩
    rw [h f hf] at hcn
    cases hcn

/-! ## Without gifts -/

/-- No flag gets a new owner, and the owners change only as `ρ` says. -/
structure Keeps (ρ : Client → Client → Prop) (s s' : Ctf) : Prop where
  flags : List.Forall₂ Flag.Tame s.flags s'.flags
  client : ∀ cn, s'.owns cn → ρ (s.clients cn) (s'.clients cn)

namespace Keeps

variable {ρ : Client → Client → Prop} {s s' : Ctf}

theorem ite {a b : Ctf} {p : Prop} [Decidable p] (ha : p → Keeps ρ s a) (hb : ¬ p → Keeps ρ s b) :
    Keeps ρ s (if p then a else b) := by
  split
  · exact ha ‹_›
  · exact hb ‹_›

variable [IsPreorder Client ρ]

theorem refl (s : Ctf) : Keeps ρ s s :=
  ⟨List.forall₂_same.mpr fun f _ => .refl f, fun cn _ => refl_of ρ (s.clients cn)⟩

theorem of_calm (h : s.Calm s') : Keeps ρ s s' := by
  refine ⟨h.flags.imp fun _ _ h => h.toTame, fun cn _ => ?_⟩
  rw [h.clients]
  exact refl_of ρ _

theorem modifyClient (h : Keeps ρ s s') (cn : Cn) (f : Client → Client)
    (hf : s'.owns cn → ρ (s'.clients cn) (f (s'.clients cn))) :
    Keeps ρ s (s'.modifyClient cn f) := by
  refine ⟨h.flags, fun c hc => ?_⟩
  have hc' : s'.owns c := hc
  show ρ (s.clients c) (Function.update s'.clients cn (f (s'.clients cn)) c)
  by_cases heq : c = cn
  · subst heq
    rw [Function.update_self]
    exact trans_of ρ (h.client c hc') (hf hc')
  · rw [Function.update_of_ne heq]
    exact h.client c hc'

end Keeps

/-- The client does not become unfit. -/
def Client.KeepsFit (ci ci' : Client) : Prop := ci.fit → ci'.fit

instance : IsPreorder Client Client.KeepsFit where
  refl _ h := h
  trans _ _ _ h h' hfit := h' (h hfit)

/-- Who has a flag had it before. -/
theorem Keeps.owns {ρ : Client → Client → Prop} {s s' : Ctf} (h : Keeps ρ s s') {cn : Cn}
    (hcn : s'.owns cn) : s.owns cn := by
  obtain ⟨f', hmem, hcn'⟩ := hcn
  obtain ⟨i, hf'⟩ := List.getElem?_of_mem hmem
  obtain ⟨f, hf, htame⟩ := Pointwise.exists_getElem? h.flags hf'
  exact ⟨f, List.mem_of_getElem? hf, htame.released cn hcn'⟩

theorem Owned.keeps {s s' : Ctf} (h : Owned s) (hkeeps : Keeps Client.KeepsFit s s') : Owned s' := by
  have howned {i : Nat} {f' : Flag} {cn : Cn} (hf' : s'.flags[i]? = some f')
      (hcn : f'.owner = some cn) : ∃ f, s.flags[i]? = some f ∧ f.owner = some cn := by
    obtain ⟨f, hf, htame⟩ := Pointwise.exists_getElem? hkeeps.flags hf'
    exact ⟨f, hf, htame.released cn hcn⟩
  refine ⟨fun i j f' g' cn hf' hg' hcn hcn' => ?_, fun cn hcn =>
    hkeeps.client cn hcn (h.fit cn (hkeeps.owns hcn))⟩
  obtain ⟨f, hf, hfcn⟩ := howned hf' hcn
  obtain ⟨g, hg, hgcn⟩ := howned hg' hcn'
  exact h.one i j f g cn hf hg hfcn hgcn

/-- Who drops the flags has none. -/
theorem not_owns_dropflag {s : Ctf} (hs : s.Start) (cn : Cn) (dropper : Option Cn) :
    ¬ (s.dropflag R cn dropper).owns cn := by
  rintro ⟨f', hf', hcn⟩
  unfold dropflag at hf'
  split at hf'
  · rename_i hgot
    rw [hs hgot] at hf'
    exact absurd hf' List.not_mem_nil
  · obtain ⟨f, -, rfl⟩ := List.mem_map.mp hf'
    split at hcn
    · rw [(f.calm_leave R s cn dropper).2] at hcn
      cases hcn
    · rename_i hne
      exact hne hcn

theorem owns_of_forgetdropper {s : Ctf} {cn c : Cn} (h : (s.forgetdropper cn).owns c) :
    s.owns c := by
  obtain ⟨f', hf', hc⟩ := h
  obtain ⟨f, hf, rfl⟩ := List.mem_map.mp hf'
  refine ⟨f, hf, ?_⟩
  split at hc
  · exact hc
  · exact hc

theorem not_owns_leavegame {s : Ctf} (hs : s.Start) (cn : Cn) : ¬ (s.leavegame R cn).owns cn :=
  fun h => not_owns_dropflag hs cn none (owns_of_forgetdropper h)

theorem not_owns_died {s : Ctf} (hs : s.Start) (cn : Cn) (actor : Option Cn) :
    ¬ (s.died R cn actor).owns cn :=
  fun h => not_owns_dropflag hs cn _ (owns_of_forgetdropper h)

theorem keeps_suicide {ρ : Client → Client → Prop} [IsPreorder Client ρ] {s : Ctf} (hs : s.Start)
    (cn : Cn) (prevented : Bool) : Keeps ρ s (s.suicide R cn prevented) := by
  refine .ite (fun _ => .refl s) fun _ => ?_
  exact (Keeps.of_calm (calm_died s cn none)).modifyClient cn _ fun h =>
    absurd h (not_owns_died hs cn none)

/-! ## Commands -/

/-- No command makes an owner unfit, or gives a flag to a client that is unfit or has one. -/
def Proper (s : Ctf) : Action → Prop
  | .slay cn => (s.clients cn).state = .ALIVE → ¬ s.owns cn
  | .fakedamage target none => ¬ s.owns target
  | .passflag fromclientnum toclientnum => s.owns fromclientnum → toclientnum ≠ fromclientnum →
    (s.clients toclientnum).fit ∧ ¬ s.owns toclientnum
  | _ => True

/-- An action that gives no flag away, and is proper, keeps the owners fit. -/
theorem step_keeps {s : Ctf} (hs : s.Start) {a : Action} (ha : ¬ a.Gives) (hok : s.Proper a) :
    Keeps Client.KeepsFit s (next R s a) := by
  have hrefl : Keeps Client.KeepsFit s s := .refl s
  have hleave (cn : Cn) (f : Client → Client) :
      Keeps Client.KeepsFit s ((s.leavegame R cn).modifyClient cn f) :=
    (Keeps.of_calm (calm_leavegame s cn)).modifyClient cn f fun h =>
      absurd h (not_owns_leavegame hs cn)
  have hkill (cn : Cn) (actor : Option Cn) : Keeps Client.KeepsFit s (s.kill R cn actor) :=
    (Keeps.of_calm (calm_died s cn actor)).modifyClient cn _ fun h =>
      absurd h (not_owns_died hs cn actor)
  cases a with
  | takeflag cn i version => exact absurd trivial ha
  | passflag fromclientnum toclientnum => exact absurd trivial ha
  | initflags list commit => exact absurd trivial ha
  | trydropflag cn => exact .ite (fun _ => .of_calm (calm_dropflag s cn none)) fun _ => hrefl
  | kill target actor => exact .ite (fun _ => hkill target _) fun _ => hrefl
  | suicide cn prevented => exact keeps_suicide hs cn prevented
  | slay cn =>
    exact .ite (fun halive => hrefl.modifyClient cn _ fun h => absurd h (hok halive)) fun _ => hrefl
  | fakedamage target actor =>
    cases actor with
    | some actor => exact hkill target (some actor)
    | none =>
      exact hrefl.modifyClient target (fun ci => { ci with state := .DEAD }) fun h => absurd h hok
  | changeteam cn team dosuicide prevented =>
    exact .ite (fun _ => (Keeps.ite (fun _ => keeps_suicide hs cn prevented)
      fun _ => hrefl).modifyClient cn _ fun _ h => h) fun _ => hrefl
  | botteam cn team =>
    exact (Keeps.ite (p := (s.clients cn).state = .ALIVE)
      (fun _ => .of_calm (calm_dropflag s cn none)) fun _ => hrefl).modifyClient cn
        (fun ci => { ci with team := team }) fun _ h => h
  | spectator cn val =>
    refine .ite (fun _ => hrefl) fun _ => .ite (fun _ => hleave cn _) fun _ => .ite (fun h => ?_)
      fun _ => hrefl
    exact hrefl.modifyClient cn _ fun _ hfit => absurd h.1 hfit.2.2
  | connect cn state team =>
    refine .ite (fun _ => hrefl) fun hcon => ?_
    exact hrefl.modifyClient cn _ fun _ hfit => absurd hfit.1 hcon
  | disconnect cn => exact .ite (fun _ => hleave cn _) fun _ => hrefl
  | spawn cn =>
    refine .ite (fun h => ?_) fun _ => hrefl
    exact hrefl.modifyClient cn _ fun _ _ => ⟨h.1, nofun, nofun⟩
  | lagged cn val =>
    refine .ite (fun _ => ?_) fun _ => .ite (fun _ => ?_) fun _ => hrefl
    · exact hrefl.modifyClient cn _ fun _ hfit => ⟨hfit.1, nofun, nofun⟩
    · exact hrefl.modifyClient cn _ fun _ hfit => ⟨hfit.1, nofun, nofun⟩
  | move cn o => exact hrefl.modifyClient cn (fun ci => { ci with o := o }) fun _ h => h
  | tick elapsedtime curtime => exact ⟨hrefl.flags, hrefl.client⟩
  | update => exact .of_calm (calm_update s)

/-! ## Gifts -/

/-- Who takes a flag carries none. -/
theorem not_carried_of_take {s : Ctf} {cn : Cn} {f : Flag} {version : Int}
    (h : s.decide R cn f version = .take) : ∀ g ∈ s.flags, g.owner ≠ some cn := by
  unfold decide at h
  dsimp only at h
  split at h
  · cases h
  · split at h
    · split at h
      · cases h
      · rename_i hcarried
        rw [Bool.not_eq_true, Option.isSome_eq_false_iff, Option.isNone_iff_eq_none,
          List.findIdx?_eq_none_iff] at hcarried
        intro g hg
        simpa using hcarried g hg
    · exfalso
      revert h
      split_ifs
      · exact nofun
      · exact nofun
      · exact nofun
      · split
        · exact nofun
        · exact nofun

theorem Flag.owner_taken (f : Flag) (s : Ctf) (cn : Cn) : (f.taken s cn).owner = some cn := by
  unfold taken
  dsimp only
  split <;> rfl

/-- A flag that is taken goes to a client that is fit and has none. -/
theorem owned_takeflag {s : Ctf} (h : Owned s) (cn : Cn) (i version : Int)
    (hcon : (s.clients cn).connected = true) : Owned (s.takeflag R cn i version) := by
  have hstart (k : Nat) : Keeps Client.KeepsFit s (s.modifyFlag k (·.started s.totalmillis)) := by
    refine ⟨Pointwise.forall₂_modify Flag.Tame.refl _ k fun f _ => ?_, fun _ _ h => h⟩
    unfold Flag.started
    split
    · exact ⟨⟨le_rfl, fun _ => ⟨rfl, rfl, rfl⟩⟩, fun _ h => h⟩
    · exact .refl f
  have htaking := takeflag_spec (R := R) s cn i version
  generalize s.takeflag R cn i version = s' at htaking
  cases htaking with
  | ignored => exact h
  | refused => exact h.keeps (hstart _)
  | scored hreq hdecide hcalm => exact (h.keeps (hstart _)).keeps (.of_calm hcalm)
  | @taken k f hreq hdecide =>
    obtain ⟨-, -, -, halive⟩ := requested_eq_some hreq
    have hnone : ∀ g ∈ s.flags, g.owner ≠ some cn := not_carried_of_take hdecide
    have hfit : (s.clients cn).fit := by
      refine ⟨hcon, ?_, ?_⟩ <;> (rw [halive]; decide)
    have hafter {j : Nat} {g' : Flag} (hg' : (s.flags.modify k (·.taken s cn))[j]? = some g') :
        (k = j ∧ g'.owner = some cn) ∨ (s.flags[j]? = some g' ∧ g'.owner ≠ some cn) := by
      by_cases hj : k = j
      · subst hj
        rw [List.getElem?_modify_eq] at hg'
        obtain ⟨g, -, rfl⟩ := Option.map_eq_some_iff.mp hg'
        exact .inl ⟨rfl, g.owner_taken s cn⟩
      · rw [List.getElem?_modify_ne _ _ hj] at hg'
        exact .inr ⟨hg', hnone g' (List.mem_of_getElem? hg')⟩
    refine ⟨fun j j' g g' c hg hg' hc hc' => ?_, ?_⟩
    · rcases hafter hg with ⟨rfl, hcn⟩ | ⟨hg, hcn⟩
      · rcases hafter hg' with ⟨rfl, -⟩ | ⟨-, hcn'⟩
        · rfl
        · exact absurd (hc'.trans (hc.symm.trans hcn)) hcn'
      · rcases hafter hg' with ⟨rfl, hcn'⟩ | ⟨hg', -⟩
        · exact absurd (hc.trans (hc'.symm.trans hcn')) hcn
        · exact h.one j j' g g' c hg hg' hc hc'
    · rintro c ⟨g', hmem, hc⟩
      obtain ⟨j, hg'⟩ := List.getElem?_of_mem hmem
      rcases hafter hg' with ⟨-, hcn⟩ | ⟨hg, -⟩
      · rw [hcn] at hc
        obtain ⟨⟩ := hc
        exact hfit
      · exact h.fit c ⟨g', List.mem_of_getElem? hg, hc⟩

/-- A flag is passed to a client that is fit and has none, or to its owner. -/
theorem owned_passFlag {s : Ctf} (h : Owned s) (fromclientnum toclientnum : Cn)
    (hok : s.Proper (.passflag fromclientnum toclientnum)) :
    Owned (s.passFlag fromclientnum toclientnum) := by
  have hbefore {i : Nat} {f' : Flag} (hf' : (s.passFlag fromclientnum toclientnum).flags[i]? = some f') :
      ∃ f, s.flags[i]? = some f ∧ ((f.owner = some fromclientnum ∧ f'.owner = some toclientnum) ∨
        (f.owner ≠ some fromclientnum ∧ f'.owner = f.owner)) := by
    obtain ⟨f, hf, rfl⟩ := Option.map_eq_some_iff.mp ((List.getElem?_map ..).symm.trans hf')
    refine ⟨f, hf, ?_⟩
    split
    · rename_i hfrom
      exact .inl ⟨hfrom, rfl⟩
    · rename_i hfrom
      exact .inr ⟨hfrom, rfl⟩
  -- a flag that was not passed is not the receiver's
  have hother {i j : Nat} {f g : Flag} (hf : s.flags[i]? = some f) (hg : s.flags[j]? = some g)
      (hfrom : f.owner = some fromclientnum) (hne : g.owner ≠ some fromclientnum) :
      g.owner ≠ some toclientnum := by
    intro hto
    have heq : toclientnum ≠ fromclientnum := by
      rintro rfl
      exact hne hto
    exact (hok ⟨f, List.mem_of_getElem? hf, hfrom⟩ heq).2 ⟨g, List.mem_of_getElem? hg, hto⟩
  refine ⟨fun i j f' g' cn hf' hg' hcn hcn' => ?_, ?_⟩
  · obtain ⟨f, hf, hfrom | hfrom⟩ := hbefore hf' <;>
      obtain ⟨g, hg, hgfrom | hgfrom⟩ := hbefore hg'
    · exact h.one i j f g fromclientnum hf hg hfrom.1 hgfrom.1
    · refine absurd ?_ (hother hf hg hfrom.1 hgfrom.1)
      rw [← hgfrom.2, hcn', ← hcn, hfrom.2]
    · refine absurd ?_ (hother hg hf hgfrom.1 hfrom.1)
      rw [← hfrom.2, hcn, ← hcn', hgfrom.2]
    · exact h.one i j f g cn hf hg (hfrom.2.symm.trans hcn) (hgfrom.2.symm.trans hcn')
  · rintro cn ⟨f', hmem, hcn⟩
    show (s.clients cn).fit
    obtain ⟨i, hf'⟩ := List.getElem?_of_mem hmem
    obtain ⟨f, hf, ⟨hfrom, hto⟩ | ⟨-, hsame⟩⟩ := hbefore hf'
    · have howner : s.owns fromclientnum := ⟨f, List.mem_of_getElem? hf, hfrom⟩
      obtain rfl : toclientnum = cn := Option.some_inj.mp (hto.symm.trans hcn)
      by_cases heq : toclientnum = fromclientnum
      · rw [heq]
        exact h.fit fromclientnum howner
      · exact (hok howner heq).1
    · exact h.fit cn ⟨f, List.mem_of_getElem? hf, hsame.symm.trans hcn⟩

/-- The flags of the map come without owners, and their hold clocks do not run. -/
theorem parseflags_fresh {s : Ctf} (hs : s.Start) (list : List (Int × Game.Vec)) (commit : Bool) :
    (s.parseflags R list commit).clients = s.clients ∧
      ((s.parseflags R list commit).flags = s.flags ∨
        ∀ f ∈ (s.parseflags R list commit).flags, f.owner = none ∧ f.starttimemssameteaminarow = 0) := by
  unfold parseflags
  split
  · exact ⟨rfl, .inl rfl⟩
  · rename_i hread
    simp only [not_or, not_not] at hread
    have hempty : s.flags = [] := hs hread.2
    split
    · unfold setupholdspawns
      split
      · exact ⟨rfl, .inl rfl⟩
      · have hcalm := calm_respawn (R := R) { s with
          holdspawns := (s.holdspawns ++ list.map Prod.snd).take MAXHOLDSPAWNS
          flags := [Flag.fresh 0 ⟨0, 0, 0⟩ 0] } 0
        refine ⟨hcalm.clients, .inr fun f hf => ?_⟩
        obtain ⟨i, hi⟩ := List.getElem?_of_mem hf
        obtain ⟨g, hg, hgf⟩ := Pointwise.exists_getElem? hcalm.flags hi
        obtain rfl : g = Flag.fresh 0 ⟨0, 0, 0⟩ 0 := List.mem_singleton.mp (List.mem_of_getElem? hg)
        have howner : f.owner = none := by
          cases h : f.owner with
          | none => rfl
          | some cn => exact nomatch hgf.released cn h
        exact ⟨howner, (hgf.stopped howner).elim id And.right⟩
    · refine ⟨rfl, .inr fun f hf => ?_⟩
      dsimp only at hf
      rw [hempty, List.drop_nil, List.append_nil] at hf
      obtain ⟨p, -, rfl⟩ := List.mem_map.mp hf
      exact ⟨rfl, rfl⟩

theorem owned_parseflags {s : Ctf} (hs : s.Start) (h : Owned s) (list : List (Int × Game.Vec))
    (commit : Bool) : Owned (s.parseflags R list commit) := by
  obtain ⟨hclients, hflags | hfresh⟩ := parseflags_fresh (R := R) hs list commit
  · refine ⟨fun i j f g cn hf hg => ?_, fun cn hcn => ?_⟩
    · rw [hflags] at hf hg
      exact h.one i j f g cn hf hg
    · unfold owns at hcn
      rw [hclients]
      rw [hflags] at hcn
      exact h.fit cn hcn
  · exact .of_unowned fun f hf => (hfresh f hf).1

/-! ## Runs -/

/-- The state of a mode that has no flags yet, or whose owners are fit. -/
structure Settled (s : Ctf) : Prop where
  start : s.Start
  owned : s.Owned

theorem settled_step {s : Ctf} (h : s.Settled) {a : Action} (hok : s.Proper a) :
    (next R s a).Settled := by
  refine ⟨(versioned_step R a s h.start).1, ?_⟩
  by_cases ha : a.Gives
  · cases a with
    | takeflag cn i version =>
      by_cases hcon : (s.clients cn).connected = true
      · have hnext : next R s (.takeflag cn i version) = s.takeflag R cn i version := if_pos hcon
        rw [hnext]
        exact owned_takeflag h.owned cn i version hcon
      · have hnext : next R s (.takeflag cn i version) = s := if_neg hcon
        rw [hnext]
        exact h.owned
    | passflag fromclientnum toclientnum => exact owned_passFlag h.owned _ _ hok
    | initflags list commit => exact owned_parseflags h.start h.owned list commit
    | _ => exact absurd ha id
  · exact h.owned.keeps (step_keeps h.start ha hok)

/-- In every run from a map without flags, as long as no command goes past the rules, each client
has at most one flag, and the owners of flags are in the game, and neither dead nor spectators. -/
theorem owners_fit {s₀ : Ctf} (h₀ : s₀.flags = []) {as : List Action}
    (hok : Machine.Along Proper (next R) s₀ as) : (Machine.run (next R) s₀ as).Owned := by
  have hsettled : s₀.Settled := ⟨fun _ => h₀, .of_unowned fun f hf => absurd (h₀ ▸ hf) List.not_mem_nil⟩
  exact (hok.inv (P := Settled) (fun s a hok h => settled_step h hok) hsettled).owned

/-- A map whose flags are not known yet; a client of each team is in the game. -/
def emptyPitch : Ctf := { pitch with flags := [], notgotflags := true }

theorem owners_fit_passed : (Machine.run (next ctfRules) emptyPitch
    [.initflags [(1, ⟨0, 0, 0⟩)] true, .takeflag 1 0 0, .passflag 1 0, .kill 0 1]).Owned :=
  owners_fit rfl ⟨trivial, trivial, fun _ _ => by decide, trivial, trivial⟩

/-- Client 1 takes the flag and is slain by a command: the flag stays with it. -/
theorem slain_owner : emptyPitch.flags = [] ∧ ¬ (Machine.run (next ctfRules) emptyPitch
    [.initflags [(1, ⟨0, 0, 0⟩)] true, .takeflag 1 0 0, .slay 1]).Owned :=
  ⟨rfl, fun h => absurd (h.fit 1 (by decide)) (by decide)⟩

end Ctf

end Zuckerserv

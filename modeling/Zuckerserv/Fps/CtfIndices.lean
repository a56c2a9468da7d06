import Zuckerserv.Fps.CtfOwners

/-!
# The places the flag modes look at

Which flags, scores and names of teams are looked at when a flag is requested, by the mode and
by the checks against cheating (`anti_cheat_parsepacket` of `fpsgame/anticheat.h`), and when
one is scored for having been held.

* `Access`, `Access.valid` — a place that is looked at, and that it is there.
* `antiCheatTakeflag`, `takeflagAccesses`, `updateAccesses` — what the code looks at.
* `mem_update` — which flags an update scores.
* `accesses_valid_iff` — when all these places are there.
* `enemy_flag_missing` — on a map with two flags, one of them is looked for behind the last.
-/

namespace Zuckerserv

namespace Ctf

variable (R : Rules)

/-- A place that is looked at. -/
inductive Access
  /-- `flags[i]`. -/
  | flag (i : Int)
  /-- `scores[i]`. -/
  | score (i : Int)
  /-- `ctfflagteam(team)`, to compare it with the name of a team. -/
  | name (team : Int)
  deriving DecidableEq

/-- The place is there. -/
def Access.valid (s : Ctf) : Access → Prop
  | .flag i => 0 ≤ i ∧ i < s.flags.length
  | .score i => 0 ≤ i ∧ i < 2
  | .name team => ctfflagteam team ≠ none

instance (s : Ctf) : (a : Access) → Decidable (a.valid s)
  | .flag i => inferInstanceAs (Decidable (0 ≤ i ∧ i < s.flags.length))
  | .score i => inferInstanceAs (Decidable (0 ≤ i ∧ i < 2))
  | .name team => inferInstanceAs (Decidable (ctfflagteam team ≠ none))

/-- The flag lies where it was dropped. -/
def Flag.lies (f : Flag) : Bool := f.droploc ≠ ⟨0, 0, 0⟩ ∧ f.droploc ≠ f.spawnloc

/-- The flag of the other team, as the checks have it. -/
def enemyflag (team : Name) : Int := if team = good then ctfteamflag evil else ctfteamflag good

/-- `N_TAKEFLAG` in `anti_cheat_parsepacket`; `far` says that the flag is at least 250 away from
the client. -/
def antiCheatTakeflag (s : Ctf) (cn : Cn) (i version : Int) (far : Bool) : List Access :=
  match s.requested cn i with
  | none => []
  | some (i, f) => .flag i :: (if f.version ≠ version then [] else
    let hasFlag : Bool := s.flags.any fun f => f.owner = some cn
    let is_team_flag : Bool := R.mHold ∨ some (s.team cn) = ctfflagteam f.team
    let score_flag := is_team_flag && !R.mHold
    let enemy := enemyflag (s.team cn)
    let enemy_flag_dropped : Bool := (¬ R.mHold ∨ ¬ R.mProtect) ∧
      (s.flags[enemy.toNat]?).any Flag.lies
    .flag i :: (if R.mHold then [] else [.name f.team]) ++
      (if ¬ R.mHold ∨ ¬ R.mProtect then [.flag enemy] else []) ++
      (if f.lies then []
      else if (far ∨ f.owner ≠ none) ∧ ((R.mProtect ∧ f.invistime ≠ 0 ∧ ¬ is_team_flag) ∨
        (¬ hasFlag ∧ score_flag ∧ ¬ R.mProtect)) then []
      else if enemy_flag_dropped then []
      else if score_flag ∧ ¬ R.mProtect ∧ ¬ R.mHold then
        if (i : Int) > 2 ∨ (i : Int) < 1 then [] else [.score (i - 1)]
      else []))

/-- What `scoreflag` looks at. -/
def scoreflagAccesses (s : Ctf) (cn : Cn) (goal : Nat) (relay : Option Nat) : List Access :=
  [.flag (relay.getD goal : Nat), .score (ctfteamflag (s.team cn) - 1), .flag goal]

/-- What `takeflag` looks at. -/
def takeflagAccesses (s : Ctf) (cn : Cn) (i version : Int) : List Access :=
  match s.requested cn i with
  | none => []
  | some (i, f) => .flag i :: match s.decide R cn f version with
    | .score => scoreflagAccesses s cn i none
    | .relay j => scoreflagAccesses s cn i (some j)
    | _ => []

/-- What is looked at for `N_TAKEFLAG`. The checks run when they are enabled and `gamespeed` is
100; the mode comes to it when the sender may play. -/
def messageAccesses (s : Ctf) (cn : Cn) (i version : Int) (checked far handled : Bool) :
    List Access :=
  (if checked then antiCheatTakeflag R s cn i version far else []) ++
    if handled then takeflagAccesses R s cn i version else []

/-- What `update` looks at to score flags. -/
def updateAccesses (s : Ctf) : List Access :=
  (update R s).2.flatMap fun e => scoreflagAccesses s e.cn e.flag none

variable {R}

/-! ## Taking flags -/

theorem ctfteamflag_cases (team : Name) :
    ctfteamflag team = 0 ∨ ctfteamflag team = 1 ∨ ctfteamflag team = 2 := by
  unfold ctfteamflag
  split_ifs
  · exact .inr (.inl rfl)
  · exact .inr (.inr rfl)
  · exact .inl rfl

theorem ctfflagteam_ne_none (i : Int) : ctfflagteam i ≠ none ↔ i = 1 ∨ i = 2 := by
  unfold ctfflagteam
  split_ifs with h h'
  · simp [h]
  · simp [h']
  · simp [h, h']

/-- A score is there for the teams the mode knows. -/
theorem score_valid (s : Ctf) (team : Name) :
    (Access.score (ctfteamflag team - 1)).valid s ↔ ctfteamflag team ≠ 0 := by
  show (0 ≤ ctfteamflag team - 1 ∧ ctfteamflag team - 1 < 2) ↔ _
  have hcases := ctfteamflag_cases team
  omega

theorem flag_valid {s : Ctf} {i : Nat} {f : Flag} (h : s.flags[i]? = some f) :
    (Access.flag i).valid s := by
  obtain ⟨hlt, -⟩ := List.getElem?_eq_some_iff.mp h
  exact ⟨Int.natCast_nonneg i, by exact_mod_cast hlt⟩

/-- What the checks look at is there: the names of teams for flags that have one, and the flag
of the other team, for which they look one place too far. -/
theorem anti_cheat_valid {s : Ctf} {cn : Cn} {i version : Int} {far : Bool} :
    (∀ a ∈ antiCheatTakeflag R s cn i version far, a.valid s) ↔
      ∀ k f, s.requested cn i = some (k, f) → f.version = version →
        (R.mHold = true ∨ f.team = 1 ∨ f.team = 2) ∧
        (R.mHold = false ∨ R.mProtect = false → enemyflag (s.team cn) < s.flags.length) := by
  have henemy : 0 ≤ enemyflag (s.team cn) := by
    unfold enemyflag
    split <;> decide
  unfold antiCheatTakeflag
  cases hreq : s.requested cn i with
  | none => simp
  | some p =>
    obtain ⟨k, f⟩ := p
    obtain ⟨-, -, hf, -⟩ := requested_eq_some hreq
    have hk := flag_valid hf
    have hscore (h : ¬ ((k : Int) > 2 ∨ (k : Int) < 1)) : (Access.score (k - 1)).valid s :=
      ⟨by omega, by omega⟩
    by_cases hversion : f.version = version
    · dsimp only
      rw [if_neg (not_not.mpr hversion)]
      constructor
      · rintro h _ _ ⟨⟩ -
        refine ⟨?_, fun hmode => ?_⟩
        · cases hhold : R.mHold with
          | true => exact .inl rfl
          | false =>
            refine .inr ((ctfflagteam_ne_none _).mp (h (.name f.team) ?_))
            simp [hhold]
        · refine (h (.flag (enemyflag (s.team cn))) ?_).2
          simp [hmode]
      · intro h a ha
        obtain ⟨hname, hflag⟩ := h k f rfl hversion
        simp only [List.mem_cons, List.mem_append, List.cons_append] at ha
        rcases ha with rfl | rfl | (hmem | hmem) | hmem
        · exact hk
        · exact hk
        · split at hmem
          · cases hmem
          · rename_i hhold
            rw [List.mem_singleton.mp hmem]
            exact (ctfflagteam_ne_none _).mpr (hname.resolve_left hhold)
        · split at hmem
          · rename_i hmode
            rw [List.mem_singleton.mp hmem]
            exact ⟨henemy, hflag (by simpa using hmode)⟩
          · cases hmem
        · split_ifs at hmem with hlies hfar hdropped hteam hrange
          · exact absurd hmem List.not_mem_nil
          · exact absurd hmem List.not_mem_nil
          · exact absurd hmem List.not_mem_nil
          · exact absurd hmem List.not_mem_nil
          · rw [List.mem_singleton.mp hmem]
            exact hscore hrange
          · exact absurd hmem List.not_mem_nil
    · dsimp only
      rw [if_pos hversion]
      constructor
      · rintro - _ _ ⟨⟩ heq
        exact absurd heq hversion
      · intro _ a ha
        rw [List.mem_singleton.mp ha]
        exact hk

/-- A flag that is brought to the own one is scored by a team that the mode knows. -/
theorem decide_relay {s : Ctf} {cn : Cn} {f : Flag} {version : Int} {j : Nat}
    (h : s.decide R cn f version = .relay j) :
    ctfteamflag (s.team cn) ≠ 0 ∧ ∃ g, s.flags[j]? = some g := by
  unfold decide at h
  dsimp only at h
  split_ifs at h with hrefused hown hcarried hprotect hinvis hdrop
  split at h
  · rename_i j' hfind
    obtain ⟨⟩ := h
    refine ⟨?_, ?_⟩
    · have hteam : f.team = ctfteamflag (s.team cn) := by
        by_contra hne
        exact hown (.inr (by simp [hne, hprotect]))
      intro hzero
      refine hrefused (.inl ?_)
      rw [if_neg fun hhold => hown (.inl hhold), hteam, hzero]
      rfl
    · obtain ⟨hlt, -, -⟩ := List.findIdx?_eq_some_iff_getElem.mp hfind
      exact ⟨_, List.getElem?_eq_getElem hlt⟩
  · cases h

theorem takeflag_valid {s : Ctf} {cn : Cn} {i version : Int} :
    (∀ a ∈ takeflagAccesses R s cn i version, a.valid s) ↔
      ∀ k f, s.requested cn i = some (k, f) → s.decide R cn f version = .score →
        ctfteamflag (s.team cn) ≠ 0 := by
  unfold takeflagAccesses
  cases hreq : s.requested cn i with
  | none => simp
  | some p =>
    obtain ⟨k, f⟩ := p
    obtain ⟨-, -, hf, -⟩ := requested_eq_some hreq
    have hk := flag_valid hf
    dsimp only
    constructor
    · rintro h _ _ ⟨⟩ hdecide
      rw [hdecide] at h
      exact (score_valid s _).mp (h _ (by simp [scoreflagAccesses]))
    · intro h a ha
      rcases List.mem_cons.mp ha with rfl | ha
      · exact hk
      · cases hdecide : s.decide R cn f version with
        | score =>
          rw [hdecide] at ha
          simp only [scoreflagAccesses, List.mem_cons, List.not_mem_nil, or_false] at ha
          rcases ha with rfl | rfl | rfl
          · exact hk
          · exact (score_valid s _).mpr (h k f rfl hdecide)
          · exact hk
        | relay j =>
          obtain ⟨hteam, g, hg⟩ := decide_relay hdecide
          rw [hdecide] at ha
          simp only [scoreflagAccesses, List.mem_cons, List.not_mem_nil, or_false] at ha
          rcases ha with rfl | rfl | rfl
          · exact flag_valid hg
          · exact (score_valid s _).mpr hteam
          · exact hk
        | refused => rw [hdecide] at ha; cases ha
        | take => rw [hdecide] at ha; cases ha
        | giveback => rw [hdecide] at ha; cases ha

/-! ## Scoring flags -/

/-- Nothing but one flag, the scores and the limit of the game has changed. -/
structure Apart (i : Nat) (s s' : Ctf) : Prop where
  only : s.FlagsOnly s'
  others : ∀ j, j ≠ i → s'.flags[j]? = s.flags[j]?

theorem Apart.refl (i : Nat) (s : Ctf) : s.Apart i s := ⟨rfl, fun _ _ => rfl⟩

theorem Apart.trans {i : Nat} {s s' s'' : Ctf} (h : s.Apart i s') (h' : s'.Apart i s'') :
    s.Apart i s'' :=
  ⟨h.only.trans h'.only, fun j hj => (h'.others j hj).trans (h.others j hj)⟩

theorem Apart.of_modify {i : Nat} {s s' : Ctf} {g : Flag → Flag} (h : s.FlagsOnly s')
    (hflags : s'.flags = s.flags.modify i g) : s.Apart i s' := by
  refine ⟨h, fun j hj => ?_⟩
  rw [hflags, List.getElem?_modify_ne _ _ (Ne.symm hj)]

theorem Apart.modifyFlag {i : Nat} {s s' : Ctf} (h : s.Apart i s') (g : Flag → Flag) :
    s.Apart i (s'.modifyFlag i g) := h.trans (.of_modify rfl rfl)

theorem Apart.spawnflag {i : Nat} {s s' : Ctf} (h : s.Apart i s') :
    s.Apart i (s'.spawnflag R i) := by
  obtain ⟨g, hflags, -⟩ := spawnflag_flags (R := R) s' i
  have hrefl : s'.FlagsOnly s' := rfl
  exact h.trans (.of_modify (hrefl.spawnflag i) hflags)

theorem Apart.addscore {i : Nat} {s s' : Ctf} (h : s.Apart i s') (team score : Int) :
    s.Apart i (s'.addscore team score) := by
  have hrefl : s'.FlagsOnly s' := rfl
  refine h.trans ⟨hrefl.addscore team score, fun j _ => ?_⟩
  rw [addscore_flags]

/-- The contract to leave the other flags alone. -/
def apart (i : Nat) : Contract Ctf Held where
  rel s _ s' := s.Apart i s'
  refl := .refl i
  trans h h' := h.trans h'

theorem apart_resetflag (i : Nat) : (apart i).Meets (resetflag R i) := by
  intro s
  change s.Apart i (resetflag R i s).1
  unfold resetflag Prog.modify Prog.act
  dsimp only
  have hreturned (g : Flag → Flag) : s.Apart i (s.modifyFlag i g) := (Apart.refl i s).modifyFlag g
  split
  · exact .refl i s
  · split
    · split
      · exact ((hreturned _).spawnflag).modifyFlag _
      · exact ((hreturned _).modifyFlag _).addscore _ _
    · exact .refl i s

theorem apart_showflag (i : Nat) : (apart i).Meets (showflag R i) :=
  fun s => (Apart.refl i s).modifyFlag _

theorem apart_scoreheld (i : Nat) : (apart i).Meets (scoreheld R i) := by
  refine .chooseAt fun s => ?_
  cases hholder : (s.flags[i]?).bind (s.holder R) with
  | none => exact (apart i).refl s
  | some cn =>
    refine .ite (fun _ => ?_) fun _ => ((Apart.refl i s).spawnflag).modifyFlag _
    obtain ⟨_, _, -, hflags⟩ := scoreflag_flags (R := R) s cn i none
    exact .of_modify (flagsOnly_scoreflag s cn i none) hflags

/-- The flag of the score has been held long enough by a client that is there. -/
def due (R : Rules) (s : Ctf) (e : Held) : Prop :=
  (s.flags[e.flag]?).bind (s.holder R) = some e.cn ∧ (s.clients e.cn).connected = true

/-- Whether a flag has been held long enough does not depend on other flags. -/
theorem due_congr {s s' : Ctf} (h : s.FlagsOnly s') {e : Held}
    (hflag : (s'.flags[e.flag]?).bind (s.holder R) = (s.flags[e.flag]?).bind (s.holder R)) :
    due R s' e ↔ due R s e := by
  have hholder : s'.holder R = s.holder R := by
    unfold FlagsOnly at h
    rw [h]
    rfl
  have hclients : s'.clients = s.clients := by rw [h]
  unfold due
  rw [hholder, hflag, hclients]

/-- A flag without owner is held by nobody. -/
theorem holder_of_unowned {s : Ctf} {f : Flag} (h : f.owner = none) : s.holder R f = none := by
  unfold holder
  split
  · exact h
  · rfl

/-- Flags that are reset or shown are not held any longer or shorter for it. -/
theorem due_resetflag (i : Nat) (s : Ctf) {e : Held} (he : e.flag = i) :
    due R (resetflag R i s).1 e ↔ due R s e := by
  refine due_congr (apart_resetflag (R := R) i s).only ?_
  rw [he]
  have hcalm := calm_resetflag (R := R) i s
  cases hf : s.flags[i]? with
  | none =>
    have hsame : (resetflag R i s).1 = s := by
      unfold resetflag Prog.modify Prog.act
      dsimp only
      rw [hf]
    rw [hsame, hf]
  | some f =>
    cases howner : f.owner with
    | none =>
      obtain ⟨f', hf', hff'⟩ := Pointwise.exists_getElem?' hcalm.flags hf
      have howner' : f'.owner = none := by
        cases h : f'.owner with
        | none => rfl
        | some cn => cases (hff'.released cn h).symm.trans howner
      rw [hf', Option.bind_some, Option.bind_some, holder_of_unowned howner',
        holder_of_unowned howner]
    | some cn =>
      have hsame : (resetflag R i s).1 = s := by
        unfold resetflag Prog.modify Prog.act
        dsimp only
        rw [hf]
        exact if_neg fun h => by cases h.1.symm.trans howner
      rw [hsame, hf]

theorem due_showflag (i : Nat) (s : Ctf) {e : Held} (he : e.flag = i) :
    due R (showflag R i s).1 e ↔ due R s e := by
  refine due_congr (apart_showflag (R := R) i s).only ?_
  rw [he]
  show ((s.flags.modify i _)[i]?).bind _ = _
  rw [List.getElem?_modify_eq]
  cases s.flags[i]? with
  | none => rfl
  | some f =>
    show s.holder R (if _ then _ else _) = s.holder R f
    split <;> rfl

theorem mem_scoreheld (i : Nat) (s : Ctf) (e : Held) :
    e ∈ (scoreheld R i s).2 ↔ e.flag = i ∧ due R s e := by
  unfold scoreheld Prog.choose due
  dsimp only
  cases hholder : (s.flags[i]?).bind (s.holder R) with
  | none =>
    refine iff_of_false List.not_mem_nil ?_
    rintro ⟨rfl, hdue, -⟩
    rw [hholder] at hdue
    cases hdue
  | some cn =>
    dsimp only
    split
    · rename_i hcon
      constructor
      · intro he
        obtain rfl := List.mem_singleton.mp he
        exact ⟨rfl, hholder, hcon⟩
      · rintro ⟨rfl, hdue, -⟩
        rw [hholder] at hdue
        obtain rfl := Option.some_inj.mp hdue
        exact List.mem_singleton.mpr rfl
    · rename_i hcon
      refine iff_of_false List.not_mem_nil ?_
      rintro ⟨rfl, hdue, hcon'⟩
      rw [hholder] at hdue
      obtain rfl := Option.some_inj.mp hdue
      exact hcon hcon'

/-- One turn of the loop of `update`. -/
def turn (R : Rules) (i : Nat) : Prog Ctf Held :=
  .seq (resetflag R i) (.seq (showflag R i) (scoreheld R i))

theorem apart_turn (i : Nat) : (apart i).Meets (turn R i) :=
  .seq (apart_resetflag i) (.seq (apart_showflag i) (apart_scoreheld i))

theorem mem_turn (i : Nat) (s : Ctf) (e : Held) :
    e ∈ (turn R i s).2 ↔ e.flag = i ∧ due R s e := by
  show e ∈ [] ++ ([] ++ (scoreheld R i (showflag R i (resetflag R i s).1).1).2) ↔ _
  rw [List.nil_append, List.nil_append, mem_scoreheld]
  refine and_congr_right fun he => ?_
  rw [due_showflag i _ he, due_resetflag i s he]

theorem mem_each_turn {l : List Nat} (hl : l.Nodup) (s : Ctf) (e : Held) :
    e ∈ (Prog.each (turn R) l s).2 ↔ e.flag ∈ l ∧ due R s e := by
  induction l generalizing s with
  | nil => simp [Prog.each, Prog.skip]
  | cons i l ih =>
    obtain ⟨hi, hl⟩ := List.nodup_cons.mp hl
    show e ∈ (turn R i s).2 ++ (Prog.each (turn R) l (turn R i s).1).2 ↔ _
    rw [List.mem_append, mem_turn, ih hl, List.mem_cons, or_and_right]
    refine or_congr_right (and_congr_right fun he => ?_)
    have hapart := apart_turn (R := R) i s
    refine due_congr hapart.only ?_
    rw [hapart.others e.flag (ne_of_mem_of_not_mem he hi)]

/-- An update scores the flags that have been held long enough. -/
theorem mem_update (s : Ctf) (e : Held) :
    e ∈ (update R s).2 ↔ s.gamemillis < s.gamelimit ∧ s.notgotflags = false ∧ due R s e := by
  have hloop : update R s = if s.gamemillis ≥ s.gamelimit ∨ s.notgotflags = true then (s, [])
      else Prog.each (turn R) (List.range s.flags.length) s := by
    show (if _ then _ else _ : Prog Ctf Held) s = _
    split <;> rfl
  rw [hloop]
  by_cases hended : s.gamemillis ≥ s.gamelimit ∨ s.notgotflags = true
  · rw [if_pos hended]
    refine iff_of_false List.not_mem_nil ?_
    rintro ⟨hlt, hgot, -⟩
    rcases hended with hge | hnot
    · exact absurd hlt (not_lt.mpr hge)
    · exact absurd (hgot.symm.trans hnot) nofun
  · rw [if_neg hended, mem_each_turn List.nodup_range]
    rw [not_or, not_le, Bool.not_eq_true] at hended
    constructor
    · exact fun h => ⟨hended.1, hended.2, h.2⟩
    · rintro ⟨-, -, hdue⟩
      obtain ⟨f, hf, -⟩ := Option.bind_eq_some_iff.mp hdue.1
      exact ⟨List.mem_range.mpr (List.getElem?_eq_some_iff.mp hf).1, hdue⟩

theorem update_valid {s : Ctf} :
    (∀ a ∈ updateAccesses R s, a.valid s) ↔ (s.gamemillis < s.gamelimit → s.notgotflags = false →
      ∀ e, due R s e → ctfteamflag (s.team e.cn) ≠ 0) := by
  constructor
  · intro h htime hgot e hdue
    refine (score_valid s _).mp (h _ (List.mem_flatMap.mpr ⟨e, ?_, ?_⟩))
    · exact (mem_update s e).mpr ⟨htime, hgot, hdue⟩
    · simp [scoreflagAccesses]
  · intro h a ha
    obtain ⟨e, he, ha⟩ := List.mem_flatMap.mp ha
    obtain ⟨htime, hgot, hdue⟩ := (mem_update s e).mp he
    obtain ⟨f, hf, -⟩ := Option.bind_eq_some_iff.mp hdue.1
    simp only [scoreflagAccesses, List.mem_cons, List.not_mem_nil, or_false] at ha
    rcases ha with rfl | rfl | rfl
    · exact flag_valid hf
    · exact (score_valid s _).mpr (h htime hgot e hdue)
    · exact flag_valid hf

/-! ## All places -/

/-- All places that are looked at for a message, or in an update, are there. -/
def InBounds (R : Rules) (s : Ctf) : Prop :=
  (∀ cn i version checked far handled,
    ∀ a ∈ messageAccesses R s cn i version checked far handled, a.valid s) ∧
  ∀ a ∈ updateAccesses R s, a.valid s

/-- The places for a message are there if and only if the checks do not run on a flag without
team, or with too few flags, and in the mode protect the flag is touched by a team the mode
knows; the places in an update, if and only if the clients to score are in such teams. -/
theorem accesses_valid_iff (R : Rules) (s : Ctf) :
    (∀ cn i version checked far handled,
      (∀ a ∈ messageAccesses R s cn i version checked far handled, a.valid s) ↔
        ∀ k f, s.requested cn i = some (k, f) →
          (checked = true → f.version = version →
            (R.mHold = true ∨ f.team = 1 ∨ f.team = 2) ∧
            (R.mHold = false ∨ R.mProtect = false →
              enemyflag (s.team cn) < s.flags.length)) ∧
          (handled = true → s.decide R cn f version = .score →
            ctfteamflag (s.team cn) ≠ 0)) ∧
    ((∀ a ∈ updateAccesses R s, a.valid s) ↔
      (s.gamemillis < s.gamelimit → s.notgotflags = false →
        ∀ e, due R s e → ctfteamflag (s.team e.cn) ≠ 0)) := by
  refine ⟨fun cn i version checked far handled => ?_, update_valid⟩
  unfold messageAccesses
  rw [List.forall_mem_append]
  constructor
  · rintro ⟨hcheat, htake⟩ k f hreq
    refine ⟨fun hchecked => ?_, fun hhandled => ?_⟩
    · rw [if_pos hchecked] at hcheat
      exact anti_cheat_valid.mp hcheat k f hreq
    · rw [if_pos hhandled] at htake
      exact takeflag_valid.mp htake k f hreq
  · intro h
    refine ⟨?_, ?_⟩
    · split
      · exact anti_cheat_valid.mpr fun k f hreq => (h k f hreq).1 ‹_›
      · exact fun _ ha => absurd ha List.not_mem_nil
    · split
      · exact takeflag_valid.mpr fun k f hreq => (h k f hreq).2 ‹_›
      · exact fun _ ha => absurd ha List.not_mem_nil

/-- A client of the team good asks for the flag of the other team, on a map with two flags: the
checks look at a third one. -/
theorem enemy_flag_missing : ¬ InBounds ctfRules (Machine.run (next ctfRules) emptyPitch
    [.initflags [(1, ⟨0, 0, 0⟩), (2, ⟨9, 9, 0⟩)] true]) := by
  rintro ⟨hmessage, -⟩
  exact absurd (hmessage 0 1 0 true false true (.flag 2) (by decide)) (by decide)

end Ctf

end Zuckerserv

import Mathlib.Algebra.BigOperators.Group.List.Basic
import Mathlib.Tactic.Ring
import Zuckerserv.Fps.CollectLimits
import Zuckerserv.Lib.Machine

/-!
# The balance of the tokens

A token that is taken should leave the ground: what is carried and what lies there change
together only by what is dropped, stolen, deposited or expires. `taketoken` leaves the token
where it is, so every token that is credited is one too many.

* `Message.gain`, `total` — what a message tells of the balance, and all tokens.
* `TokenLaw` — the balance, and that no token is credited twice.
* `Bare`, `balanced_step` — as long as no token is credited, nobody carries one.
* `token_law_iff` — the law holds if and only if no token is credited.
* `credited_twice` — a token that is credited twice.
-/

namespace Zuckerserv

namespace Collect

open Ctf (Cn Name)
open Sweep

/-! ## The law -/

/-- What a message tells of new tokens, and of tokens that are gone. Of the tokens that a client
drops it has carried all but one. -/
def Message.gain : Message → Int
  | .droptokens .. => 1
  | .stealtokens .. => 1
  | .deposittokens _ _ deposited _ _ _ => -deposited
  | .expiretokens ids => -ids.length
  | .taketoken .. => 0

/-- What messages tell of the balance. -/
def gains (o : List Message) : Int := (o.map Message.gain).sum

/-- The tokens that are carried, and those on the ground. -/
def total (s : Collect) : Int := (s.clients.map fun cn => (s.info cn).tokens).sum + s.tokens.length

/-- The state after an action. -/
def next (s : Collect) (a : Action) : Collect := (step a s).1

/-- A request for a token changes how many tokens a client carries. -/
def Changes (s : Collect) (cn : Cn) (id : Int) : Prop :=
  ∃ c, ((s.next (.taketoken cn id)).info c).tokens ≠ (s.info c).tokens

/-- The law of the tokens, in a run. -/
structure TokenLaw (s₀ : Collect) (as : List Action) : Prop where
  /-- On one map, after a request that has been credited no other for the same token is. -/
  once : ∀ (bs cs ds : List Action) (cn cn' : Cn) (id : Int),
    as = bs ++ .taketoken cn id :: (cs ++ .taketoken cn' id :: ds) →
    (∀ ments, Action.changemap ments ∉ cs) →
    Changes (Machine.run next s₀ bs) cn id →
    ¬ Changes (Machine.run next s₀ (bs ++ .taketoken cn id :: cs)) cn' id
  /-- The tokens change together only by what is dropped, stolen, deposited or expires. -/
  balance : ∀ (bs : List Action) (a : Action) (cs : List Action), as = bs ++ a :: cs →
    (∀ ments, a ≠ .changemap ments) →
    total (next (Machine.run next s₀ bs) a) =
      total (Machine.run next s₀ bs) + gains (step a (Machine.run next s₀ bs)).2

/-- No request for a token is credited. -/
def NotCredited (s : Collect) (a : Action) : Prop :=
  ∀ cn id, a = .taketoken cn id → cn ∈ s.clients → ∀ t, s.asked cn id = some t → ¬ s.credits cn t

/-! ## Nobody carries tokens -/

/-- Nobody carries tokens. -/
def Bare (s : Collect) : Prop := ∀ cn, (s.info cn).tokens = 0

variable {s : Collect}

theorem total_of_bare (h : s.Bare) : s.total = s.tokens.length := by
  have hzero : (s.clients.map fun cn => (s.info cn).tokens).sum = 0 := by
    refine List.sum_eq_zero fun n hn => ?_
    obtain ⟨cn, -, rfl⟩ := List.mem_map.mp hn
    exact h cn
  unfold total
  rw [hzero, Int.zero_add]

/-- The contract of the balance, as long as nobody carries tokens. -/
def balanced : Contract Collect Message where
  rel s o s' := Bare s → Bare s' ∧ (s'.tokens.length : Int) = s.tokens.length + gains o
  refl s h := ⟨h, by simp [gains]⟩
  trans {s s' s'' o o'} h h' hs := by
    obtain ⟨hs', hlength⟩ := h hs
    obtain ⟨hs'', hlength'⟩ := h' hs'
    refine ⟨hs'', ?_⟩
    unfold gains at *
    rw [List.map_append, List.sum_append]
    omega

theorem Bare.modifyClient (h : s.Bare) {cn : Cn} {f : Client → Client}
    (hf : (f (s.info cn)).tokens = 0) : (s.modifyClient cn f).Bare := by
  intro c
  show (Function.update s.info cn (f (s.info cn)) c).tokens = 0
  by_cases hc : c = cn
  · rw [hc, Function.update_self]
    exact hf
  · rw [Function.update_of_ne hc]
    exact h c

theorem gains_expired (removed : List Token) : gains (expired removed) = -removed.length := by
  unfold expired
  split
  · rename_i hnone
    rw [hnone]
    rfl
  · simp [gains, Message.gain]

/-- A change of the clients, of the clocks or of the bases only. -/
theorem balanced_modify {f : Collect → Collect} (htokens : ∀ s, (f s).tokens = s.tokens)
    (hbare : ∀ s : Collect, s.Bare → (f s).Bare) : balanced.Meets (.modify f) := by
  intro s
  show Bare s → _
  intro h
  refine ⟨hbare s h, ?_⟩
  show ((f s).tokens.length : Int) = _
  rw [htokens]
  exact (Int.add_zero _).symm

theorem balanced_droptokens (cn : Cn) (penalty : Bool) : balanced.Meets (droptokens cn penalty) := by
  intro s
  show Bare s → _
  intro h
  cases hgot : s.notgotbases with
  | true =>
    have hskip : droptokens cn penalty s = (s, []) := by
      show (if s.notgotbases = true then _ else _ : Prog Collect Message) s = _
      rw [if_pos hgot]
      rfl
    rw [hskip]
    exact ⟨h, (Int.add_zero _).symm⟩
  | false =>
    have hcarried : (if penalty then 0 else (s.info cn).tokens) = 0 := by
      rw [h cn, ite_self]
    have heq := droptokens_eq cn penalty hgot
    dsimp only at heq
    rw [heq, hcarried]
    have hsplit := loopvrev_length (quota (droppedby cn (collectteambase (s.info cn).team)) id
      TOKENLIMIT) (fun friendly => if friendly then 1 else 0) s.tokens
    generalize loopvrev (quota (droppedby cn (collectteambase (s.info cn).team)) id TOKENLIMIT)
      (fun friendly => if friendly then 1 else 0) s.tokens = r at hsplit ⊢
    obtain ⟨new, next, hdrops, hlength, -⟩ := drops_spec { s with tokens := r.1 } cn
      (collectteambase (s.info cn).team) (1 + (0 : Int)).toNat
    rw [hdrops]
    refine ⟨Bare.modifyClient (s := { s with tokens := r.1 ++ new, nexttoken := next }) h
      (f := fun ci => { ci with tokens := 0 }) rfl, ?_⟩
    have hgains (drops : List (Int × Int)) :
        gains (expired r.2 ++ [.droptokens cn drops]) = -r.2.length + 1 := by
      unfold gains
      rw [List.map_append, List.sum_append]
      exact congrArg (· + 1) (gains_expired r.2)
    rw [hgains]
    show ((r.1 ++ new).length : Int) = _
    rw [List.length_append, hlength]
    have hone : (1 + (0 : Int)).toNat = 1 := rfl
    omega

theorem balanced_leavegame (cn : Cn) (disconnecting : Bool) :
    balanced.Meets (leavegame cn disconnecting) := by
  have hleft {s : Collect} (h : s.Bare) :
      (s.modifyClient cn fun ci => { ci with tokens := 0 }).Bare :=
    h.modifyClient (f := fun ci => { ci with tokens := 0 }) rfl
  refine .chooseAt fun s => .ite (fun _ => ?_) fun _ => ?_
  · show Bare s → _
    exact fun h => ⟨hleft h, (Int.add_zero _).symm⟩
  · show Bare s → _
    intro h
    refine ⟨hleft h, ?_⟩
    have hsplit := loopvrev_length (quota (unowned cn (collectteambase (s.info cn).team))
      (fun t => { t with dropper := INT_MIN }) UNOWNEDTOKENLIMIT) (fun _ => 0) s.tokens
    have hgains := gains_expired (s.abandoned cn).2
    show ((s.abandoned cn).1.length : Int) = s.tokens.length + gains (expired (s.abandoned cn).2)
    rw [hgains]
    unfold abandoned
    omega

theorem balanced_update : balanced.Meets update := by
  refine .chooseAt fun s => .ite (fun _ => balanced.refl s) fun _ => ?_
  show Bare s → _
  intro h
  refine ⟨h, ?_⟩
  have hsplit := loopvrev_length (expire s.lastmillis) () s.tokens
  have hgains := gains_expired (loopvrev (expire s.lastmillis) () s.tokens).2
  show ((loopvrev (expire s.lastmillis) () s.tokens).1.length : Int) = s.tokens.length +
    gains (expired (loopvrev (expire s.lastmillis) () s.tokens).2)
  omega

theorem balanced_deposittokens (cn : Cn) (basenum : Int) :
    balanced.Meets (deposittokens cn basenum) := by
  refine .chooseAt fun s => .ite (fun _ => balanced.refl s) fun _ => ?_
  cases s.bases[basenum.toNat]? with
  | none => exact balanced.refl s
  | some b =>
    refine .ite (fun _ => balanced.refl s) fun _ => .ite (fun hcarried => ?_) fun _ =>
      .ite (fun _ => balanced.refl s) fun _ => .ite (fun _ => balanced.refl s) fun _ =>
        .ite (fun _ => ?_) fun _ => balanced.refl s
    · show Bare s → _
      intro h
      rw [h cn] at hcarried
      exact absurd hcarried (by decide)
    · let robbed : Collect :=
        { s with bases := s.bases.set basenum.toNat { b with laststeal := s.gamemillis } }
      show Bare s → _
      intro h
      have hinfo : (robbed.addscore b.team (-1)).info = s.info := by rw [addscore_eq]
      refine ⟨fun c => ?_, ?_⟩
      · show ((robbed.addscore b.team (-1)).info c).tokens = 0
        rw [hinfo]
        exact h c
      · show (((robbed.addscore b.team (-1)).tokens ++ [_]).length : Int) = _
        rw [addscore_tokens, List.length_append]
        rfl

theorem taketoken_of_asked {cn : Cn} {id : Int} {t : Token} (hasked : s.asked cn id = some t) :
    taketoken cn id s =
      let tokens := if s.credits cn t then (s.info cn).tokens + 1 else (s.info cn).tokens
      (s.modifyClient cn fun ci => { ci with tokens := tokens }, [.taketoken cn id tokens]) := by
  unfold taketoken Prog.choose
  dsimp only
  rw [hasked]
  rfl

theorem balancedAt_taketoken {cn : Cn} {id : Int}
    (hok : ∀ t, s.asked cn id = some t → ¬ s.credits cn t) :
    balanced.MeetsAt (taketoken cn id) s := by
  cases hasked : s.asked cn id with
  | none =>
    unfold Contract.MeetsAt taketoken Prog.choose
    dsimp only
    rw [hasked]
    exact balanced.refl s
  | some t =>
    unfold Contract.MeetsAt
    rw [taketoken_of_asked hasked, if_neg (hok t hasked)]
    show Bare s → _
    intro h
    exact ⟨h.modifyClient (f := fun ci => { ci with tokens := (s.info cn).tokens }) (h cn),
      (Int.add_zero _).symm⟩

/-- An action that credits no token, and does not change the map, keeps the balance. -/
theorem balanced_step {a : Action} (hok : s.NotCredited a) (hmap : ∀ ments, a ≠ .changemap ments) :
    balanced.MeetsAt (step a) s := by
  have hsame (cn : Cn) (f : Client → Client) (hf : ∀ ci : Client, ci.tokens = 0 → (f ci).tokens = 0) :
      balanced.Meets (.modify (·.modifyClient cn f)) :=
    balanced_modify (fun _ => rfl) fun s h => h.modifyClient (hf _ (h cn))
  cases a with
  | taketoken cn id =>
    show balanced.MeetsAt (if cn ∈ s.clients then taketoken cn id else .skip) s
    exact .ite (fun hcn => balancedAt_taketoken (hok cn id rfl hcn)) fun _ => balanced.refl s
  | deposittokens cn basenum => exact Contract.Meets.guard (balanced_deposittokens cn basenum) .skip s
  | inittokens teams commit =>
    refine balanced_modify (fun s => ?_) (fun s h => ?_) s
    · unfold parsebases
      split <;> rfl
    · unfold parsebases
      split <;> exact h
  | die cn actor =>
    have hdie : balanced.Meets (step (.die cn actor)) :=
      .seq (.choose fun s => balanced_droptokens cn _) (hsame cn _ fun _ h => h)
    exact hdie s
  | respawn cn => exact hsame cn (fun ci => { ci with tokens := 0 }) (fun _ _ => rfl) s
  | spawn cn => exact hsame cn (fun ci => { ci with state := .ALIVE }) (fun _ h => h) s
  | state cn state => exact hsame cn (fun ci => { ci with state := state }) (fun _ h => h) s
  | changeteam cn team => exact hsame cn (fun ci => { ci with team := team }) (fun _ h => h) s
  | spectator cn =>
    have hleave : balanced.Meets (step (.spectator cn)) :=
      .seq (balanced_leavegame cn false) (hsame cn _ fun _ h => h)
    exact hleave s
  | connect cn team =>
    refine balanced_modify (fun s => ?_) (fun s h => ?_) s
    · split <;> rfl
    · split
      · exact h
      · exact h.modifyClient (f := fun _ => ⟨.DEAD, team, 0, 0⟩) rfl
  | disconnect cn =>
    have hleave : balanced.Meets (step (.disconnect cn)) :=
      .guard (.seq (balanced_leavegame cn true) (balanced_modify (fun _ => rfl) fun _ h => h)) .skip
    exact hleave s
  | changemap ments => exact absurd rfl (hmap ments)
  | tick millis => exact balanced_modify (fun _ => rfl) (fun _ h => h) s
  | update => exact balanced_update s

/-- Nobody carries tokens after an action that credits none. -/
theorem bare_next {a : Action} (hok : s.NotCredited a) (h : s.Bare) : (s.next a).Bare := by
  by_cases hmap : ∀ ments, a ≠ .changemap ments
  · exact (balanced_step hok hmap h).1
  · obtain ⟨ments, rfl⟩ := not_forall_not.mp hmap
    intro cn
    show ((setup { s with info := fun cn => (s.info cn).mapchange } ments).info cn).tokens = 0
    cases ments with
    | none => rfl
    | some teams => rfl

/-! ## The law holds if and only if no token is credited -/

/-- A client in the game gets a token: there is one more in all, for every time that it is among
the clients. -/
theorem sum_modifyClient (s : Collect) (cn : Cn) (tokens : Int) (l : List Cn) :
    (l.map fun c => ((s.modifyClient cn fun ci => { ci with tokens := tokens }).info c).tokens).sum =
      (l.map fun c => (s.info c).tokens).sum + l.count cn * (tokens - (s.info cn).tokens) := by
  induction l with
  | nil => simp
  | cons c l ih =>
    rw [List.map_cons, List.sum_cons, ih, List.map_cons, List.sum_cons, List.count_cons]
    by_cases hc : c = cn
    · subst hc
      have hself : ((s.modifyClient c fun ci => { ci with tokens := tokens }).info c).tokens =
          tokens := by
        unfold modifyClient
        dsimp only
        rw [Function.update_self]
      rw [hself, if_pos (beq_self_eq_true c)]
      push_cast
      ring
    · have hother : (s.modifyClient cn fun ci => { ci with tokens := tokens }).info c = s.info c :=
        Function.update_of_ne hc ..
      rw [hother, if_neg (by simpa using hc)]
      push_cast
      ring

/-- The law of the tokens holds in a run if and only if no request for a token is credited. -/
theorem token_law_iff {s₀ : Collect} (h₀ : s₀.Start) {as : List Action} :
    TokenLaw s₀ as ↔ Machine.Along NotCredited next s₀ as := by
  constructor
  · intro h
    refine Machine.along_iff.mpr fun bs a cs has => ?_
    rintro cn id rfl hcn t hasked hcredits
    have hbalance := h.balance bs _ cs has fun _ hmap => by cases hmap
    generalize Machine.run next s₀ bs = s at hcn hasked hcredits hbalance
    have hstep : step (.taketoken cn id) s = (s.modifyClient cn fun ci =>
        { ci with tokens := (s.info cn).tokens + 1 },
          [.taketoken cn id ((s.info cn).tokens + 1)]) := by
      show (if cn ∈ s.clients then taketoken cn id else Prog.skip) s = _
      rw [if_pos hcn]
      rw [taketoken_of_asked hasked, if_pos hcredits]
    have hcount : 0 < s.clients.count cn := List.count_pos_iff.mpr hcn
    have hsum := sum_modifyClient s cn ((s.info cn).tokens + 1) s.clients
    unfold next at hbalance
    rw [hstep] at hbalance
    unfold total at hbalance
    dsimp only at hbalance
    have hclients : (s.modifyClient cn fun ci =>
        { ci with tokens := (s.info cn).tokens + 1 }).clients = s.clients := rfl
    have htokens : (s.modifyClient cn fun ci =>
        { ci with tokens := (s.info cn).tokens + 1 }).tokens = s.tokens := rfl
    have hgain : gains [.taketoken cn id ((s.info cn).tokens + 1)] = 0 := rfl
    rw [hclients, htokens, hsum, hgain, add_sub_cancel_left] at hbalance
    omega
  · intro hok
    have hbare (bs cs : List Action) (has : as = bs ++ cs) : (Machine.run next s₀ bs).Bare := by
      subst has
      exact (Machine.along_append.mp hok).1.inv (fun s a hok h => bare_next hok h) h₀.carried
    refine ⟨fun bs cs ds cn cn' id has _ ⟨c, hc⟩ => ?_, fun bs a cs has hmap => ?_⟩
    · refine absurd ?_ hc
      have hafter := hbare (bs ++ [.taketoken cn id]) (cs ++ .taketoken cn' id :: ds)
        (by rw [has, List.append_assoc]; rfl)
      rw [Machine.run_snoc] at hafter
      rw [hafter c, hbare bs _ has c]
    · have hbefore := hbare bs _ has
      obtain ⟨hafter, hlength⟩ := balanced_step (Machine.along_iff.mp hok bs a cs has) hmap hbefore
      rw [total_of_bare hbefore]
      exact (total_of_bare hafter).trans hlength

/-- A client drops a token of its team, and another client of this team does not get it. -/
theorem token_law_refused : TokenLaw quiet [.inittokens [1, 2] true, .connect 0 Ctf.good,
    .connect 1 Ctf.good, .spawn 0, .spawn 1, .die 1 (some 0), .taketoken 0 1, .update] := by
  refine (token_law_iff ⟨rfl, rfl, rfl, rfl, fun _ => rfl⟩).mpr
    ⟨nofun, nofun, nofun, nofun, nofun, nofun, ?_, nofun, trivial⟩
  rintro cn id ⟨⟩ - t hasked
  have ht : t = ⟨1, 1, 0, 1⟩ := (Option.some.inj hasked).symm
  rw [ht]
  decide

/-- A client takes the same token twice, and carries two. -/
theorem credited_twice : quiet.Start ∧ ¬ TokenLaw quiet [.inittokens [1, 2] true,
    .connect 0 Ctf.good, .connect 1 Ctf.evil, .spawn 0, .spawn 1, .die 1 (some 0),
    .taketoken 0 1, .taketoken 0 1] := by
  refine ⟨⟨rfl, rfl, rfl, rfl, fun _ => rfl⟩, fun h => ?_⟩
  exact h.once [.inittokens [1, 2] true, .connect 0 Ctf.good, .connect 1 Ctf.evil, .spawn 0,
    .spawn 1, .die 1 (some 0)] [] [] 0 0 1 rfl (fun _ => List.not_mem_nil) ⟨0, by decide +kernel⟩
    ⟨0, by decide +kernel⟩

end Collect

end Zuckerserv

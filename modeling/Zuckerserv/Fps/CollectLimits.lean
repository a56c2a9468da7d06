import Mathlib.Algebra.Ring.Nat
import Mathlib.Data.List.Nodup
import Zuckerserv.Fps.Collect

/-!
# The limits of the collect mode

How many tokens a client may carry, how many that it has dropped, that were stolen from a base or
that have lost their owner may lie on the ground; and that no two tokens have the same number.

* `Limits`, `Fresh` — the limits, and the numbers of the tokens.
* `drops_spec` — what is dropped.
* `limits_step`, `fresh_step` — every action keeps them.
* `limits_kept` — the limits in any run.
-/

namespace Zuckerserv

namespace Collect

open Ctf (Cn Name)
open Sweep

/-- The limits. -/
structure Limits (s : Collect) : Prop where
  carried : ∀ cn, 0 ≤ (s.info cn).tokens ∧ (s.info cn).tokens ≤ TOKENLIMIT
  dropped : ∀ cn : Cn, (s.tokens.countP (Token.of cn) : Int) ≤ 2 * TOKENLIMIT
  stolen : ∀ b : Nat, b < MAXBASES → (s.tokens.countP (Token.of (-1 - b)) : Int) ≤ TOKENLIMIT
  scores : 0 ≤ s.scores.1 ∧ 0 ≤ s.scores.2
  bases : s.bases.length ≤ MAXBASES

/-- The contract to keep within the limits. -/
abbrev limits : Contract Collect Message := .keeps Limits

variable {s : Collect}

/-! ## Dropping -/

/-- Tokens that are dropped lie behind the others, and are the client's. -/
theorem drops_spec (s : Collect) (cn : Cn) (team : Int) (n : Nat) :
    ∃ new next, s.drops cn team n = { s with tokens := s.tokens ++ new, nexttoken := next } ∧
      new.length = n ∧ ∀ t ∈ new, t.dropper = cn := by
  induction n with
  | zero => exact ⟨[], s.nexttoken, by rw [List.append_nil]; rfl, rfl, nofun⟩
  | succ n ih =>
    obtain ⟨new, next, hdrops, hlength, hnew⟩ := ih
    have hlast : s.drops cn team (n + 1) =
        (s.drops cn team n).droptoken (if n = 0 then team else -team)
          (s.drops cn team n).lastmillis cn := by
      unfold drops
      rw [List.range_succ, List.foldl_append]
      rfl
    rw [hlast, hdrops]
    refine ⟨new ++ [⟨nextid next, if n = 0 then team else -team, s.lastmillis, cn⟩], nextid next,
      ?_, ?_, fun t ht => ?_⟩
    · unfold droptoken
      dsimp only
      rw [List.append_assoc]
    · rw [List.length_append, hlength]
      rfl
    · rcases List.mem_append.mp ht with ht | ht
      · exact hnew t ht
      · rw [List.mem_singleton.mp ht]

/-- A client has no more tokens on the ground than the friendly and the other ones. -/
theorem countP_dropper (l : List Token) (cn : Cn) (team : Int) :
    l.countP (Token.of cn) = l.countP (fun t => t.dropper = (cn : Int) ∧ t.team = team) +
      l.countP (fun t => t.dropper = (cn : Int) ∧ t.team ≠ team) := by
  induction l with
  | nil => rfl
  | cons t l ih =>
    rw [List.countP_cons, List.countP_cons, List.countP_cons, ih]
    by_cases hd : t.dropper = cn <;> by_cases ht : t.team = team <;> simp [Token.of, hd, ht] <;>
      omega

/-- Which tokens are left by the loop of `droptokens`. -/
theorem kept_droptokens (l : List Token) (cn : Cn) (team carried : Int) (hcarried : carried ≤ TOKENLIMIT) :
    let kept := (loopvrev (quota (droppedby cn team) id TOKENLIMIT)
      (fun friendly => if friendly then 1 else carried) l).1
    (kept.countP (Token.of cn) : Int) + 1 + carried ≤ 2 * TOKENLIMIT := by
  intro kept
  have hclass (t : Token) (c : Bool) (hc : droppedby cn team t = some c) :
      t.dropper = cn ∧ c = decide (t.team = team) := by
    unfold droppedby at hc
    split at hc
    · exact ⟨‹_›, (Option.some_inj.mp hc).symm⟩
    · cases hc
  have hother (t : Token) (ht : droppedby cn team t = none) : t.dropper ≠ cn := by
    unfold droppedby at ht
    split at ht
    · cases ht
    · assumption
  have hfriendly : (kept.countP (fun t => t.dropper = (cn : Int) ∧ t.team = team) : Int) ≤
      max 0 (TOKENLIMIT - 1) := by
    refine loopvrev_quota (c := true) (fun t ht => ?_) (fun t c hc hq => ?_) _ l
    · simpa using fun h => absurd h (hother t ht)
    · rw [(hclass t c hc).2]
      simpa using (of_decide_eq_true hq).2
  have henemy : (kept.countP (fun t => t.dropper = (cn : Int) ∧ t.team ≠ team) : Int) ≤
      max 0 (TOKENLIMIT - carried) := by
    refine loopvrev_quota (c := false) (fun t ht => ?_) (fun t c hc hq => ?_) _ l
    · simpa using fun h => absurd h (hother t ht)
    · rw [(hclass t c hc).2]
      simpa using (of_decide_eq_true hq).2
  have hcount := countP_dropper kept cn team
  unfold TOKENLIMIT at *
  omega

/-- A loop that keeps droppers leaves at most as many tokens of each dropper. -/
theorem kept_dropper (cn : Cn) (team : Int) (k : Bool → Int) (l : List Token) (dropper : Int) :
    (loopvrev (quota (droppedby cn team) id TOKENLIMIT) k l).1.countP (Token.of dropper) ≤
      l.countP (Token.of dropper) := by
  refine loopvrev_countP_le (fun k t k' t' hvisit hq => ?_) k l
  rcases quota_kept hvisit with rfl | ⟨rfl, -⟩
  · exact hq
  · exact hq

theorem countP_new {new : List Token} {cn : Cn} (hnew : ∀ t ∈ new, t.dropper = cn) {dropper : Int}
    (h : dropper ≠ cn) : new.countP (Token.of dropper) = 0 := by
  refine List.countP_eq_zero.mpr fun t ht => ?_
  unfold Token.of
  rw [hnew t ht]
  simpa using Ne.symm h

theorem Limits.modifyClient (h : Limits s) (cn : Cn) {f : Client → Client}
    (hf : 0 ≤ (f (s.info cn)).tokens ∧ (f (s.info cn)).tokens ≤ TOKENLIMIT) :
    Limits (s.modifyClient cn f) := by
  refine ⟨fun c => ?_, h.dropped, h.stolen, h.scores, h.bases⟩
  show 0 ≤ (Function.update s.info cn (f (s.info cn)) c).tokens ∧ _
  by_cases hc : c = cn
  · subst hc
    show _ ∧ (Function.update s.info c (f (s.info c)) c).tokens ≤ _
    rw [Function.update_self]
    exact hf
  · show _ ∧ (Function.update s.info cn (f (s.info cn)) c).tokens ≤ _
    rw [Function.update_of_ne hc]
    exact h.carried c

theorem none_carried : 0 ≤ (0 : Int) ∧ (0 : Int) ≤ TOKENLIMIT := ⟨le_rfl, by decide⟩

theorem Limits.emptied (h : Limits s) (cn : Cn) :
    Limits (s.modifyClient cn fun ci => { ci with tokens := 0 }) :=
  h.modifyClient (f := fun ci => { ci with tokens := 0 }) cn none_carried

/-- `droptokens`, when the bases are known. -/
theorem droptokens_eq (cn : Cn) (penalty : Bool) (hgot : s.notgotbases = false) :
    let carried := if penalty then 0 else (s.info cn).tokens
    let r := loopvrev (quota (droppedby cn (collectteambase (s.info cn).team)) id TOKENLIMIT)
      (fun friendly => if friendly then 1 else carried) s.tokens
    let s' := { s with tokens := r.1 }.drops cn (collectteambase (s.info cn).team) (1 + carried).toNat
    droptokens cn penalty s = (s'.modifyClient cn fun ci => { ci with tokens := 0 },
      expired r.2 ++ [.droptokens cn ((s'.tokens.drop r.1.length).map fun t => (t.id, t.team))]) := by
  show (if s.notgotbases = true then _ else _ : Prog Collect Message) s = _
  rw [if_neg (by rw [hgot]; exact Bool.false_ne_true)]
  rfl

theorem limits_droptokens (cn : Cn) (penalty : Bool) : limits.Meets (droptokens cn penalty) := by
  intro s (h : Limits s)
  cases hgot : s.notgotbases with
  | true =>
    have hskip : droptokens cn penalty s = (s, []) := by
      show (if s.notgotbases = true then _ else _ : Prog Collect Message) s = _
      rw [if_pos hgot]
      rfl
    rwa [hskip]
  | false =>
    have hcarried : 0 ≤ (if penalty then 0 else (s.info cn).tokens) ∧
        (if penalty then 0 else (s.info cn).tokens) ≤ TOKENLIMIT := by
      split
      · exact none_carried
      · exact h.carried cn
    have heq := droptokens_eq cn penalty hgot
    dsimp only at heq
    rw [heq]
    generalize (if penalty then 0 else (s.info cn).tokens) = carried at hcarried ⊢
    have hkept := kept_droptokens s.tokens cn (collectteambase (s.info cn).team) carried hcarried.2
    have hothers := kept_dropper cn (collectteambase (s.info cn).team)
      (fun friendly => if friendly then 1 else carried) s.tokens
    dsimp only at hkept
    generalize hr : loopvrev (quota (droppedby cn (collectteambase (s.info cn).team)) id TOKENLIMIT)
      (fun friendly => if friendly then 1 else carried) s.tokens = r at hkept hothers ⊢
    obtain ⟨new, next, hdrops, hlength, hnew⟩ := drops_spec { s with tokens := r.1 } cn
      (collectteambase (s.info cn).team) (1 + carried).toNat
    rw [hdrops]
    refine Limits.emptied (s := { s with tokens := r.1 ++ new, nexttoken := next })
      ⟨h.carried, fun c => ?_, fun b hb => ?_, h.scores, h.bases⟩ cn
    · show ((r.1 ++ new).countP (Token.of c) : Int) ≤ _
      rw [List.countP_append]
      by_cases hc : c = cn
      · subst hc
        have hall : new.countP (Token.of c) ≤ new.length := List.countP_le_length
        omega
      · rw [countP_new hnew (by exact_mod_cast hc)]
        have hold := h.dropped c
        have hless := hothers c
        omega
    · show ((r.1 ++ new).countP (Token.of (-1 - b)) : Int) ≤ _
      rw [List.countP_append, countP_new hnew (by omega)]
      have hold := h.stolen b hb
      have hless := hothers (-1 - b)
      omega

/-! ## Leaving -/

/-- What is left of the tokens when a client leaves. -/
def abandoned (s : Collect) (cn : Cn) : List Token × List Token :=
  loopvrev (quota (unowned cn (collectteambase (s.info cn).team))
    (fun t => { t with dropper := INT_MIN }) UNOWNEDTOKENLIMIT) (fun _ => 0) s.tokens

/-- No token gets another owner when a client leaves. -/
theorem abandoned_dropper (s : Collect) (cn : Cn) (dropper : Int) (hd : dropper ≠ INT_MIN) :
    (s.abandoned cn).1.countP (Token.of dropper) ≤ s.tokens.countP (Token.of dropper) := by
  refine loopvrev_countP_le (fun k t k' t' hvisit hq => ?_) _ _
  rcases quota_kept hvisit with rfl | ⟨rfl, -⟩
  · exact absurd (of_decide_eq_true hq).symm hd
  · exact hq

/-- The tokens without owner are within their limit when a client has left, those of its team and
the others. -/
theorem abandoned_unowned (s : Collect) (cn : Cn) (friendly : Bool) :
    ((s.abandoned cn).1.countP (fun t => t.dropper = INT_MIN ∧
      decide (t.team = collectteambase (s.info cn).team) = friendly) : Int) ≤ UNOWNEDTOKENLIMIT := by
  refine loopvrev_quota (c := friendly) (fun t ht => ?_) (fun t c hc hq => ?_) _ s.tokens
  · unfold unowned at ht
    split at ht
    · cases ht
    · rename_i howned
      rw [not_or, not_le] at howned
      simpa using fun h => absurd h howned.2.ne'
  · unfold unowned at hc
    split at hc
    · rw [← Option.some_inj.mp hc]
      exact (of_decide_eq_true hq).2
    · cases hc

theorem limits_leavegame (cn : Cn) (disconnecting : Bool) :
    limits.Meets (leavegame cn disconnecting) := by
  refine .chooseAt fun s => .ite (fun _ (h : Limits s) => h.emptied cn)
    fun _ (h : Limits s) => ?_
  have hleft := h.emptied cn
  refine ⟨hleft.carried, fun c => ?_, fun b hb => ?_, h.scores, h.bases⟩
  · have hless := abandoned_dropper s cn c (by unfold INT_MIN; omega)
    exact le_trans (by exact_mod_cast hless) (h.dropped c)
  · have hless := abandoned_dropper s cn (-1 - b) (by
      unfold INT_MIN
      unfold MAXBASES at hb
      omega)
    exact le_trans (by exact_mod_cast hless) (h.stolen b hb)

/-! ## Bases and tokens -/

theorem addscore_scores (h : 0 ≤ s.scores.1 ∧ 0 ≤ s.scores.2) {team score : Int}
    (hscore : 0 ≤ s.totalscore team + score) :
    0 ≤ (s.addscore team score).scores.1 ∧ 0 ≤ (s.addscore team score).scores.2 := by
  unfold totalscore at hscore
  unfold addscore
  split_ifs at hscore ⊢ with h1 h2
  · exact ⟨hscore, h.2⟩
  · exact ⟨h.1, hscore⟩
  · exact h

theorem totalscore_nonneg (h : 0 ≤ s.scores.1 ∧ 0 ≤ s.scores.2) (team : Int) :
    0 ≤ s.totalscore team := by
  unfold totalscore
  split_ifs
  · exact h.1
  · exact h.2
  · exact le_rfl

/-- Only the scores change. -/
theorem addscore_eq (s : Collect) (team score : Int) :
    s.addscore team score = { s with scores := (s.addscore team score).scores } := by
  unfold addscore
  split_ifs <;> rfl

theorem Limits.addscore (h : Limits s) (team score : Int)
    (hscore : 0 ≤ s.totalscore team + score) :
    Limits (s.addscore team score) := by
  have hscores := addscore_scores h.scores hscore
  rw [addscore_eq]
  exact ⟨h.carried, h.dropped, h.stolen, hscores, h.bases⟩

theorem Limits.robbed (h : Limits s) (i : Nat) (b : Base) :
    Limits { s with bases := s.bases.set i b } :=
  ⟨h.carried, h.dropped, h.stolen, h.scores, by
    rw [List.length_set]
    exact h.bases⟩

/-- A token is stolen from a base that has not lost too many. -/
theorem Limits.stealtoken (h : Limits s) {b : Nat}
    (hcount : (s.tokens.countP (Token.of (-1 - b)) : Int) < TOKENLIMIT) (team droptime : Int) :
    Limits (s.droptoken team droptime (-1 - b)) := by
  have hcountP (d : Int) : (s.droptoken team droptime (-1 - b)).tokens.countP (Token.of d) =
      s.tokens.countP (Token.of d) + if -1 - (b : Int) = d then 1 else 0 := by
    show (s.tokens ++ [_]).countP _ = _
    rw [List.countP_append, List.countP_singleton]
    simp only [Token.of, decide_eq_true_eq]
  refine ⟨h.carried, fun c => ?_, fun b' hb' => ?_, h.scores, h.bases⟩
  · rw [hcountP, if_neg (by omega)]
    exact h.dropped c
  · have hold := h.stolen b' hb'
    rw [hcountP]
    by_cases hb : b' = b
    · rw [hb, if_pos rfl]
      omega
    · rw [if_neg (by omega)]
      exact hold

@[simp] theorem addscore_tokens (s : Collect) (team score : Int) :
    (s.addscore team score).tokens = s.tokens := by
  rw [addscore_eq]

theorem limits_deposittokens (cn : Cn) (basenum : Int) : limits.Meets (deposittokens cn basenum) := by
  refine .chooseAt fun s => .ite (fun _ => limits.refl s) fun hchecks => ?_
  have hbasenum : 0 ≤ basenum := not_lt.mp fun hlt => hchecks (.inr (.inl hlt))
  obtain ⟨n, rfl⟩ := Int.eq_ofNat_of_zero_le hbasenum
  cases hb : s.bases[(n : Int).toNat]? with
  | none => exact limits.refl s
  | some b =>
    refine .ite (fun _ => limits.refl s) fun hbase => .ite (fun hcarried (h : Limits s) => ?_)
      fun _ => .ite (fun _ => limits.refl s) fun _ => .ite (fun _ => limits.refl s) fun hscore =>
        .ite (fun hstolen (h : Limits s) => ?_) fun _ => limits.refl s
    · have hrobbed := h.robbed n { b with laststeal := s.gamemillis }
      have hscored := hrobbed.addscore (collectteambase (s.info cn).team) (s.info cn).tokens
        (Int.add_nonneg (totalscore_nonneg hrobbed.scores _) (h.carried cn).1)
      have hemptied := hscored.modifyClient
        (f := fun ci => { ci with flags := ci.flags + ci.tokens, tokens := 0 }) cn none_carried
      show Limits (if _ then _ else _)
      split
      · exact ⟨hemptied.carried, hemptied.dropped, hemptied.stolen, hemptied.scores, hemptied.bases⟩
      · exact hemptied
    · have hrobbed := h.robbed n { b with laststeal := s.gamemillis }
      have hscored := hrobbed.addscore b.team (-1) (by
        have hpos : 0 < s.totalscore b.team := not_le.mp hscore
        have hsame : Collect.totalscore { s with
          bases := s.bases.set n { b with laststeal := s.gamemillis } } b.team =
            s.totalscore b.team := rfl
        omega)
      exact hscored.stealtoken (by rwa [addscore_tokens]) _ _

theorem limits_taketoken (cn : Cn) (id : Int) : limits.Meets (taketoken cn id) := by
  refine .chooseAt fun s => ?_
  cases s.asked cn id with
  | none => exact limits.refl s
  | some t =>
    intro (h : Limits s)
    have hold := h.carried cn
    have htaken : 0 ≤ (if s.credits cn t then (s.info cn).tokens + 1 else (s.info cn).tokens) ∧
        (if s.credits cn t then (s.info cn).tokens + 1 else (s.info cn).tokens) ≤ TOKENLIMIT := by
      split
      · rename_i hcredits
        have hless := hcredits.2.2
        omega
      · exact hold
    exact h.modifyClient (f := fun ci => { ci with tokens := _ }) cn htaken

theorem limits_update : limits.Meets update := by
  refine .chooseAt fun s => .ite (fun _ => limits.refl s) fun _ (h : Limits s) => ?_
  have hless (q : Token → Bool) : (loopvrev (expire s.lastmillis) () s.tokens).1.countP q ≤
      s.tokens.countP q := by
    refine loopvrev_countP_le (fun k t k' t' hvisit hq => ?_) () s.tokens
    obtain ⟨-, hkept⟩ := Prod.mk.inj hvisit
    split at hkept
    · cases hkept
    · rwa [Option.some_inj.mp hkept]
  refine ⟨h.carried, fun c => ?_, fun b hb => ?_, h.scores, h.bases⟩
  · exact le_trans (by exact_mod_cast hless _) (h.dropped c)
  · exact le_trans (by exact_mod_cast hless _) (h.stolen b hb)

/-- A mode whose tokens and scores have been reset. -/
theorem limits_reset (hcarried : ∀ cn, 0 ≤ (s.info cn).tokens ∧ (s.info cn).tokens ≤ TOKENLIMIT)
    (htokens : s.tokens = []) (hscores : s.scores = (0, 0)) (hbases : s.bases.length ≤ MAXBASES) :
    Limits s := by
  refine ⟨hcarried, fun c => ?_, fun b _ => ?_, ?_, hbases⟩
  · rw [htokens]
    show (0 : Int) ≤ 2 * TOKENLIMIT
    decide
  · rw [htokens]
    show (0 : Int) ≤ TOKENLIMIT
    decide
  · rw [hscores]
    exact ⟨le_rfl, le_rfl⟩

theorem limits_setup (h : Limits s) (ments : Option (List Int)) : Limits (s.setup ments) := by
  unfold setup
  cases ments with
  | none => exact limits_reset h.carried rfl rfl (Nat.zero_le _)
  | some teams =>
    refine limits_reset h.carried rfl rfl ?_
    show ((teams.take MAXBASES).map _).length ≤ MAXBASES
    rw [List.length_map]
    exact List.length_take_le ..

theorem limits_parsebases (h : Limits s) (teams : List Int) (commit : Bool) :
    Limits (s.parsebases teams commit) := by
  unfold parsebases
  split
  · exact h
  · refine ⟨h.carried, h.dropped, h.stolen, h.scores, ?_⟩
    have hold := h.bases
    have htaken : (teams.take MAXBASES).length ≤ MAXBASES := List.length_take_le ..
    show (_ ++ _ : List Base).length ≤ MAXBASES
    rw [List.length_append, List.length_map, List.length_drop]
    omega

/-- Every action keeps within the limits. -/
theorem limits_step (a : Action) : limits.Meets (step a) := by
  have hsame (cn : Cn) (f : Client → Client) (hf : ∀ ci, (f ci).tokens = ci.tokens) :
      limits.Meets (.modify (·.modifyClient cn f)) := by
    intro s (h : Limits s)
    refine h.modifyClient cn ?_
    rw [hf]
    exact h.carried cn
  cases a with
  | taketoken cn id => exact .guard (limits_taketoken cn id) .skip
  | deposittokens cn basenum => exact .guard (limits_deposittokens cn basenum) .skip
  | inittokens teams commit => exact fun s h => limits_parsebases h teams commit
  | die cn actor =>
    exact .seq (.choose fun s => limits_droptokens cn _) (hsame cn _ fun _ => rfl)
  | respawn cn =>
    intro s (h : Limits s)
    exact h.modifyClient (f := fun ci => { ci with tokens := 0 }) cn none_carried
  | spawn cn => exact hsame cn _ fun _ => rfl
  | state cn state => exact hsame cn _ fun _ => rfl
  | changeteam cn team => exact hsame cn _ fun _ => rfl
  | spectator cn => exact .seq (limits_leavegame cn false) (hsame cn _ fun _ => rfl)
  | connect cn team =>
    intro s (h : Limits s)
    show Limits (if _ then _ else _)
    split
    · exact h
    · have hnew := h.modifyClient (f := fun _ => ⟨.DEAD, team, 0, 0⟩) cn none_carried
      exact ⟨hnew.carried, hnew.dropped, hnew.stolen, hnew.scores, hnew.bases⟩
  | disconnect cn =>
    refine .guard (.seq (limits_leavegame cn true) fun t (h : Limits t) => ?_) .skip
    exact ⟨h.carried, h.dropped, h.stolen, h.scores, h.bases⟩
  | changemap ments =>
    intro s (h : Limits s)
    refine limits_setup (s := { s with info := fun cn => (s.info cn).mapchange }) ?_ ments
    exact ⟨fun _ => none_carried, h.dropped, h.stolen, h.scores, h.bases⟩
  | tick millis =>
    intro s (h : Limits s)
    exact ⟨h.carried, h.dropped, h.stolen, h.scores, h.bases⟩
  | update => exact limits_update

/-! ## The numbers of the tokens -/

/-- How many tokens a message tells of that are new on the ground. -/
def Message.dropped : Message → Nat
  | .droptokens _ drops => drops.length
  | .stealtokens .. => 1
  | _ => 0

/-- How many tokens have been dropped. -/
def dropcount (o : List Message) : Nat := (o.map Message.dropped).sum

/-- No two tokens have the same number, and none a number that is still to come. -/
structure Fresh (s : Collect) : Prop where
  nexttoken : 0 ≤ s.nexttoken
  ids : (s.tokens.map Token.id).Nodup
  old : ∀ t ∈ s.tokens, t.id ≤ s.nexttoken

/-- The contract of the numbers: as long as they do not overflow, they stay apart, and there are
as many as tokens have been dropped. -/
def fresh : Contract Collect Message where
  rel s o s' := Fresh s → s.nexttoken + dropcount o ≤ INT_MAX →
    Fresh s' ∧ s'.nexttoken ≤ s.nexttoken + dropcount o
  refl s h _ := ⟨h, by simp [dropcount]⟩
  trans {s s' s'' o o'} h h' hs hmax := by
    have hcount : dropcount (o ++ o') = dropcount o + dropcount o' := by
      unfold dropcount
      rw [List.map_append, List.sum_append]
    rw [hcount] at hmax ⊢
    obtain ⟨hs', hnext⟩ := h hs (by omega)
    obtain ⟨hs'', hnext'⟩ := h' hs' (by omega)
    exact ⟨hs'', by omega⟩

theorem fresh_of_same {p : Prog Collect Message} (htokens : (p s).1.tokens = s.tokens)
    (hnext : (p s).1.nexttoken = s.nexttoken) : fresh.MeetsAt p s := by
  show Fresh s → _
  refine fun h _ => ⟨⟨hnext ▸ h.nexttoken, htokens ▸ h.ids, ?_⟩, ?_⟩
  · rw [htokens, hnext]
    exact h.old
  · rw [hnext]
    omega

/-- A loop that keeps the numbers of what it does not remove. -/
theorem Fresh.loopvrev {κ : Type} (h : Fresh s) (visit : κ → Token → κ × Option Token) (k : κ)
    (hid : ∀ k t k' t', visit k t = (k', some t') → t'.id = t.id) :
    Fresh { s with tokens := (loopvrev visit k s.tokens).1 } := by
  refine ⟨h.nexttoken, loopvrev_nodup hid h.ids, fun t ht => ?_⟩
  obtain ⟨t₀, ht₀, heq⟩ := loopvrev_mem hid ht
  rw [heq]
  exact h.old t₀ ht₀

theorem fresh_droptoken (h : Fresh s) (hmax : s.nexttoken + 1 ≤ INT_MAX) (team droptime dropper : Int) :
    Fresh (s.droptoken team droptime dropper) ∧
      (s.droptoken team droptime dropper).nexttoken = s.nexttoken + 1 := by
  have hnext : nextid s.nexttoken = s.nexttoken + 1 := by
    have hpos := h.nexttoken
    unfold nextid
    rw [if_neg (by omega)]
    exact if_neg (by omega)
  unfold droptoken
  rw [hnext]
  refine ⟨⟨by have hpos := h.nexttoken; dsimp only; omega, ?_, fun t ht => ?_⟩, rfl⟩
  · rw [List.map_append]
    refine List.nodup_append.mpr ⟨h.ids, List.nodup_singleton _, fun i hi j hj => ?_⟩
    obtain ⟨t, ht, rfl⟩ := List.mem_map.mp hi
    have hold := h.old t ht
    rw [List.mem_singleton.mp hj]
    dsimp only
    omega
  · dsimp only at ht ⊢
    rcases List.mem_append.mp ht with ht | ht
    · have hold := h.old t ht
      omega
    · rw [List.mem_singleton.mp ht]

theorem fresh_drops (h : Fresh s) (cn : Cn) (team : Int) {n : Nat}
    (hmax : s.nexttoken + n ≤ INT_MAX) :
    Fresh (s.drops cn team n) ∧ (s.drops cn team n).nexttoken = s.nexttoken + n := by
  induction n with
  | zero => exact ⟨h, by simp [drops]⟩
  | succ n ih =>
    obtain ⟨hbefore, hnext⟩ := ih (by omega)
    have hlast : s.drops cn team (n + 1) =
        (s.drops cn team n).droptoken (if n = 0 then team else -team)
          (s.drops cn team n).lastmillis cn := by
      unfold drops
      rw [List.range_succ, List.foldl_append]
      rfl
    obtain ⟨hafter, hlastnext⟩ := fresh_droptoken hbefore (by rw [hnext]; omega)
      (if n = 0 then team else -team) (s.drops cn team n).lastmillis cn
    rw [hlast]
    exact ⟨hafter, by rw [hlastnext, hnext]; omega⟩

theorem dropcount_expired (removed : List Token) : dropcount (expired removed) = 0 := by
  unfold expired
  split <;> rfl

theorem fresh_droptokens (cn : Cn) (penalty : Bool) : fresh.Meets (droptokens cn penalty) := by
  intro s
  cases hgot : s.notgotbases with
  | true =>
    have hskip : droptokens cn penalty s = (s, []) := by
      show (if s.notgotbases = true then _ else _ : Prog Collect Message) s = _
      rw [if_pos hgot]
      rfl
    exact fresh_of_same (by rw [hskip]) (by rw [hskip])
  | false =>
    show Fresh s → _
    intro h hmax
    have heq := droptokens_eq cn penalty hgot
    dsimp only at heq
    rw [heq] at hmax ⊢
    have hkept := h.loopvrev (quota (droppedby cn (collectteambase (s.info cn).team)) id
      TOKENLIMIT) (fun friendly => if friendly then 1 else
        if penalty then 0 else (s.info cn).tokens) fun k t k' t' hvisit => by
      rcases quota_kept hvisit with rfl | ⟨rfl, -⟩ <;> rfl
    generalize (if penalty then 0 else (s.info cn).tokens) = carried at hmax hkept ⊢
    generalize loopvrev (quota (droppedby cn (collectteambase (s.info cn).team)) id TOKENLIMIT)
      (fun friendly => if friendly then 1 else carried) s.tokens = r at hmax hkept ⊢
    obtain ⟨new, next, hdrops, hlength, -⟩ := drops_spec { s with tokens := r.1 } cn
      (collectteambase (s.info cn).team) (1 + carried).toNat
    have hcount : dropcount (expired r.2 ++ [.droptokens cn ((({ s with tokens := r.1 }.drops cn
        (collectteambase (s.info cn).team) (1 + carried).toNat).tokens.drop r.1.length).map
          fun t : Token => (t.id, t.team))]) = (1 + carried).toNat := by
      unfold dropcount
      rw [List.map_append, List.sum_append]
      show dropcount (expired r.2) + _ = _
      rw [dropcount_expired, hdrops, Nat.zero_add]
      simp [Message.dropped, hlength]
    rw [hcount] at hmax ⊢
    obtain ⟨hafter, hnext⟩ := fresh_drops hkept cn (collectteambase (s.info cn).team) hmax
    exact ⟨⟨hafter.nexttoken, hafter.ids, hafter.old⟩, hnext.le⟩

theorem fresh_leavegame (cn : Cn) (disconnecting : Bool) :
    fresh.Meets (leavegame cn disconnecting) := by
  refine .chooseAt fun s => .ite (fun _ => fresh_of_same rfl rfl) fun _ => ?_
  show Fresh s → _
  intro h _
  have hkept := h.loopvrev (quota (unowned cn (collectteambase (s.info cn).team))
    (fun t => { t with dropper := INT_MIN }) UNOWNEDTOKENLIMIT) (fun _ => 0) fun k t k' t' hvisit => by
      rcases quota_kept hvisit with rfl | ⟨rfl, -⟩ <;> rfl
  exact ⟨⟨hkept.nexttoken, hkept.ids, hkept.old⟩, Int.le_add_of_nonneg_right (Int.natCast_nonneg _)⟩

theorem fresh_update : fresh.Meets update := by
  refine .chooseAt fun s => .ite (fun _ => fresh_of_same rfl rfl) fun _ => ?_
  show Fresh s → _
  intro h _
  have hkept := h.loopvrev (expire s.lastmillis) () fun k t k' t' hvisit => by
    obtain ⟨-, hsome⟩ := Prod.mk.inj hvisit
    split at hsome
    · cases hsome
    · rw [Option.some_inj.mp hsome]
  exact ⟨⟨hkept.nexttoken, hkept.ids, hkept.old⟩, Int.le_add_of_nonneg_right (Int.natCast_nonneg _)⟩

@[simp] theorem addscore_nexttoken (s : Collect) (team score : Int) :
    (s.addscore team score).nexttoken = s.nexttoken := by
  rw [addscore_eq]

theorem fresh_deposittokens (cn : Cn) (basenum : Int) : fresh.Meets (deposittokens cn basenum) := by
  refine .chooseAt fun s => .ite (fun _ => fresh.refl s) fun _ => ?_
  cases s.bases[basenum.toNat]? with
  | none => exact fresh.refl s
  | some b =>
    refine .ite (fun _ => fresh.refl s) fun _ => .ite (fun _ => fresh_of_same ?_ ?_) fun _ =>
      .ite (fun _ => fresh.refl s) fun _ => .ite (fun _ => fresh.refl s) fun _ =>
        .ite (fun _ => ?_) fun _ => fresh.refl s
    · show Collect.tokens (if _ then _ else _) = _
      split <;> exact addscore_tokens ..
    · show Collect.nexttoken (if _ then _ else _) = _
      split <;> exact addscore_nexttoken ..
    · show Fresh s → _
      intro h hmax
      let robbed : Collect :=
        { s with bases := s.bases.set basenum.toNat { b with laststeal := s.gamemillis } }
      have hrobbed : Fresh (robbed.addscore b.team (-1)) := by
        refine ⟨?_, ?_, ?_⟩
        · rw [addscore_nexttoken]
          exact h.nexttoken
        · rw [addscore_tokens]
          exact h.ids
        · rw [addscore_tokens, addscore_nexttoken]
          exact h.old
      obtain ⟨hafter, hnext⟩ := fresh_droptoken hrobbed
        (by rw [addscore_nexttoken]; exact hmax) (collectteambase (s.info cn).team) s.lastmillis
        (-1 - basenum)
      rw [addscore_nexttoken] at hnext
      exact ⟨hafter, hnext.le⟩

theorem fresh_taketoken (cn : Cn) (id : Int) : fresh.Meets (taketoken cn id) := by
  refine .chooseAt fun s => ?_
  cases s.asked cn id with
  | none => exact fresh.refl s
  | some t => exact fresh_of_same rfl rfl

/-- Every action keeps the numbers of the tokens apart. -/
theorem fresh_step (a : Action) : fresh.Meets (step a) := by
  have hsame (f : Collect → Collect) (hf : ∀ s, (f s).tokens = s.tokens ∧
      (f s).nexttoken = s.nexttoken) : fresh.Meets (.modify f) :=
    fun s => fresh_of_same (hf s).1 (hf s).2
  cases a with
  | taketoken cn id => exact .guard (fresh_taketoken cn id) .skip
  | deposittokens cn basenum => exact .guard (fresh_deposittokens cn basenum) .skip
  | inittokens teams commit =>
    refine hsame _ fun s => ?_
    unfold parsebases
    split <;> exact ⟨rfl, rfl⟩
  | die cn actor =>
    exact .seq (.choose fun s => fresh_droptokens cn _) (hsame _ fun _ => ⟨rfl, rfl⟩)
  | respawn cn => exact hsame _ fun _ => ⟨rfl, rfl⟩
  | spawn cn => exact hsame _ fun _ => ⟨rfl, rfl⟩
  | state cn state => exact hsame _ fun _ => ⟨rfl, rfl⟩
  | changeteam cn team => exact hsame _ fun _ => ⟨rfl, rfl⟩
  | spectator cn => exact .seq (fresh_leavegame cn false) (hsame _ fun _ => ⟨rfl, rfl⟩)
  | connect cn team =>
    refine hsame _ fun s => ?_
    split <;> exact ⟨rfl, rfl⟩
  | disconnect cn => exact .guard (.seq (fresh_leavegame cn true) (hsame _ fun _ => ⟨rfl, rfl⟩)) .skip
  | changemap ments =>
    intro s
    show Fresh s → _
    intro h _
    have hpos := h.nexttoken
    have hnone : Fresh (setup { s with info := fun cn => (s.info cn).mapchange } ments) ∧
        (setup { s with info := fun cn => (s.info cn).mapchange } ments).nexttoken = 0 := by
      unfold setup
      cases ments with
      | none => exact ⟨⟨le_rfl, List.nodup_nil, nofun⟩, rfl⟩
      | some teams => exact ⟨⟨le_rfl, List.nodup_nil, nofun⟩, rfl⟩
    refine ⟨hnone.1, hnone.2.le.trans ?_⟩
    omega
  | tick millis => exact hsame _ fun _ => ⟨rfl, rfl⟩
  | update => exact fresh_update

/-! ## Runs -/

/-- The mode before anything has happened. -/
structure Start (s : Collect) : Prop where
  tokens : s.tokens = []
  nexttoken : s.nexttoken = 0
  scores : s.scores = (0, 0)
  bases : s.bases = []
  carried : ∀ cn, (s.info cn).tokens = 0

/-- The tokens without owner are within their limit, those of the team and the others. -/
def UnownedLimit (s : Collect) (team : Int) : Prop :=
  ∀ friendly : Bool, (s.tokens.countP (fun t => t.dropper = INT_MIN ∧
    decide (t.team = team) = friendly) : Int) ≤ UNOWNEDTOKENLIMIT

/-- In every run with fewer than `2 ^ 31` tokens dropped, all limits are kept and no two tokens
have the same number; and after every disconnect there are not too many tokens without owner. -/
theorem limits_kept {s₀ : Collect} (h₀ : s₀.Start) {as : List Action}
    (hdrops : dropcount (run step as s₀).2 < 2 ^ 31) :
    (run step as s₀).1.Limits ∧ ((run step as s₀).1.tokens.map Token.id).Nodup ∧
      ∀ bs cn, as = bs ++ [.disconnect cn] → cn ∈ (run step bs s₀).1.clients →
        (run step as s₀).1.UnownedLimit
          (collectteambase ((run step bs s₀).1.info cn).team) := by
  have hlimits : Limits s₀ := limits_reset (fun cn => by rw [h₀.carried]; exact none_carried)
    h₀.tokens h₀.scores (by rw [h₀.bases]; exact Nat.zero_le _)
  have hfresh : Fresh s₀ := by
    refine ⟨h₀.nexttoken.ge, ?_, ?_⟩
    · rw [h₀.tokens]
      exact List.nodup_nil
    · rw [h₀.tokens]
      exact nofun
  have hmax : s₀.nexttoken + dropcount (run step as s₀).2 ≤ INT_MAX := by
    rw [h₀.nexttoken]
    unfold INT_MAX
    omega
  refine ⟨Contract.Meets.run limits_step as s₀ hlimits,
    (Contract.Meets.run fresh_step as s₀ hfresh hmax).1.ids, fun bs cn has hcn friendly => ?_⟩
  rw [has, run_append]
  have hstep : (run step [.disconnect cn] (run step bs s₀).1).1.tokens =
      ((run step bs s₀).1.abandoned cn).1 := by
    show ((if cn ∈ (run step bs s₀).1.clients then _ else _ : Prog Collect Message) _).1.tokens = _
    rw [if_pos hcn]
    rfl
  rw [hstep]
  exact abandoned_unowned (run step bs s₀).1 cn friendly

/-- A mode without clients, before anything has happened. -/
def quiet : Collect := ⟨[], (0, 0), [], 0, true, [], fun _ => ⟨.DEAD, [], 0, 0⟩, 0, 0, 600000⟩

/-- Two clients come; one kills the other, takes the token and brings it to the base; the other
leaves. -/
def skirmish : List Action := [.inittokens [1, 2] true, .connect 0 Ctf.good, .connect 1 Ctf.evil,
  .spawn 0, .spawn 1, .die 1 (some 0), .taketoken 0 1, .deposittokens 0 1, .disconnect 1]

theorem limits_kept_skirmish :
    (run step skirmish quiet).1.Limits ∧ ((run step skirmish quiet).1.tokens.map Token.id).Nodup ∧
      ∀ bs cn, skirmish = bs ++ [.disconnect cn] → cn ∈ (run step bs quiet).1.clients →
        (run step skirmish quiet).1.UnownedLimit
          (collectteambase ((run step bs quiet).1.info cn).team) :=
  limits_kept ⟨rfl, rfl, rfl, rfl, fun _ => rfl⟩ (by decide +kernel)

end Collect

end Zuckerserv

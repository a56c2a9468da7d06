import Mathlib.Data.List.Count
import Mathlib.Data.List.Nodup
import Mathlib.Logic.Function.Basic
import Zuckerserv.Lib.Machine

/-!
# Votes to kick a player

Votes are kept under the address of the player they are against, by the client numbers of the
voters, with a counter of their own. When a client disconnects, its votes are meant to be taken
back; but the handler for that is called where it should be registered.

* `votekick`, `checkKick` — a vote, and the kick if there are enough.
* `Justified` — who is kicked has enough votes of clients that are connected.
* `Quiet` — nobody whose vote counts disconnects, and no address is used by two players.
* `kicks_justified` — then every kick in a run is justified.
* `voter_gone` — otherwise a vote counts of someone who has left.
-/

namespace Zuckerserv

namespace VoteKick

/-- A client that is connected. `id` is the number of the connection, for the record. -/
structure Client where
  id : Nat
  cn : Nat
  ip : String
  deriving DecidableEq

/-- An entry of `votes`: `"yes"` or `"no"` by the number of the voter, and `votes`. -/
structure Tally where
  ballots : Nat → Option Bool
  votes : Option Nat

/-- The server and the table `votes`. For the record, there is who has voted against whom since the
last change of the map. -/
structure State where
  clients : List Client
  fresh : Nat
  votes : String → Option Tally
  cast : List (Nat × Nat)

/-- The server starts. -/
def State.init : State := ⟨[], 0, fun _ => none, []⟩

/-- What the server says at some moment: the number of players, the numbers of the admins, and those
that `gclients()` goes through. -/
structure Moment where
  playercount : Nat
  admins : List Nat
  listed : List Nat

/-! ## The code -/

/-- The client with that number. -/
def State.client (s : State) (cn : Nat) : Option Client := s.clients.find? (·.cn == cn)

/-- The votes that are required: `round(server.playercount / 2, 0)`, or the minimum. -/
def required (votekick_min_votes_required : Nat) (m : Moment) : Nat :=
  let required_votes := (m.playercount + 1) / 2
  if required_votes < votekick_min_votes_required then votekick_min_votes_required
  else required_votes

/-- `server.kick(victim, …)`: a bot is deleted, and the address of a player is banned. -/
def kick (s : State) (m : Moment) (victim : Client) : List Client :=
  if victim.cn > 127 then [victim]
  else s.clients.filter fun c => c.ip = victim.ip ∧ c.cn ∉ m.admins

/-- The vote is put down and counted, and `check_kick` is called; there is the state afterwards, and
who is kicked. -/
def checkKick (min : Nat) (s : State) (m : Moment) (actor victim : Client) (t : Tally) :
    State × List Client :=
  let votes := t.votes.getD 0 + 1
  let t : Tally := ⟨Function.update t.ballots actor.cn (some true), some votes⟩
  let s := { s with
    votes := Function.update s.votes victim.ip (some t)
    cast := s.cast ++ [(actor.id, victim.id)] }
  if votes ≥ required min m then
    ({ s with votes := Function.update s.votes victim.ip none }, kick s m victim)
  else (s, [])

/-- A new entry: all that are there may vote. -/
def newTally (m : Moment) : Tally := ⟨fun cn => if cn ∈ m.listed then some false else none, none⟩

/-- `run(cn, victim)`, for the number that `victim` stands for; `same` when it was written as the
number is printed. -/
def votekick (min : Nat) (s : State) (m : Moment) (cn victim : Nat) (same : Bool) :
    State × List Client :=
  if m.playercount < min + 1 then (s, [])
  else
    match s.client cn, s.client victim with
    | some actor, some v =>
      if same ∧ victim = cn then (s, [])
      else if victim ∈ m.admins then (s, [])
      else
        match s.votes v.ip with
        | none => checkKick min s m actor v (newTally m)
        | some t => if t.ballots cn = some false then checkKick min s m actor v t else (s, [])
    | _, _ => (s, [])

/-- What happens. -/
inductive Action
  | votekick (m : Moment) (cn victim : Nat) (same : Bool)
  | connect (cn : Nat) (ip : String)
  /-- A client leaves, or is kicked. -/
  | disconnect (cn : Nat)
  | mapchange

/-- One step, and who is kicked by a vote. A client gets a number that is not in use. Nothing is
done to the votes when one disconnects. -/
def act (min : Nat) (s : State) : Action → State × List Client
  | .votekick m cn victim same => votekick min s m cn victim same
  | .connect cn ip =>
    if ∃ c ∈ s.clients, c.cn = cn then (s, [])
    else ({ s with clients := s.clients ++ [⟨s.fresh, cn, ip⟩], fresh := s.fresh + 1 }, [])
  | .disconnect cn => ({ s with clients := s.clients.filter (·.cn ≠ cn) }, [])
  | .mapchange => ({ s with votes := fun _ => none, cast := [] }, [])

/-- One step. -/
def step (min : Nat) (s : State) (a : Action) : State := (act min s a).1

/-! ## What is meant -/

/-- The votes that are required when something happens. -/
def Action.required (min : Nat) : Action → Nat
  | .votekick m _ _ _ => VoteKick.required min m
  | _ => 0

/-- Who is kicked has as many votes as are required, of different connections that are there and
have voted against that one since the last change of the map. -/
def Justified (min : Nat) (s : State) (a : Action) : Prop :=
  ∀ victim ∈ (act min s a).2, ∃ voters : List Client, (voters.map Client.id).Nodup ∧
    (∀ c ∈ voters, c ∈ s.clients ∧ (c.id, victim.id) ∈ (cast min s a)) ∧
    a.required min ≤ voters.length
where
  /-- The votes, with the one that is being cast. -/
  cast (min : Nat) (s : State) (a : Action) : List (Nat × Nat) := (act min s a).1.cast

/-- Nobody disconnects whose vote counts, and no client comes from an address that another one has
or that there are votes against. -/
def Quiet (s : State) : Action → Prop
  | .disconnect cn => ∀ ip t, s.votes ip = some t → t.ballots cn ≠ some true
  | .connect _ ip => (∀ c ∈ s.clients, c.ip ≠ ip) ∧ s.votes ip = none
  | _ => True

/-! ## The counter -/

variable {clients : List Client} {cast : List (Nat × Nat)} {t : Tally} {w : Nat}

/-- The votes of a tally are those of clients that are there, against the connection `w`, and the
counter says how many there are. -/
structure Counts (clients : List Client) (cast : List (Nat × Nat)) (t : Tally) (w : Nat) :
    Prop where
  voters : ∀ cn, t.ballots cn = some true → ∃ c ∈ clients, c.cn = cn ∧ (c.id, w) ∈ cast
  count : t.votes.getD 0 = clients.countP fun c => t.ballots c.cn = some true

/-- Different clients have different numbers. -/
theorem eq_of_cn (hnodup : (clients.map Client.cn).Nodup) {c d : Client} (hc : c ∈ clients)
    (hd : d ∈ clients) (h : c.cn = d.cn) : c = d :=
  List.inj_on_of_nodup_map hnodup hc hd h

/-- A new tally has no votes. -/
theorem counts_newTally (m : Moment) : Counts clients cast (newTally m) w where
  voters cn h := by
    rw [newTally] at h
    dsimp only at h
    split at h <;> exact absurd h (by simp)
  count := by
    refine (List.countP_eq_zero.mpr fun c _ => ?_).symm
    rw [newTally]
    dsimp only
    split <;> simp

/-- One more vote is one more. -/
theorem countP_update {f : Nat → Option Bool} {actor : Client}
    (hnodup : (clients.map Client.cn).Nodup) (hactor : actor ∈ clients)
    (hnew : f actor.cn ≠ some true) :
    (clients.countP fun c => Function.update f actor.cn (some true) c.cn = some true) =
      (clients.countP fun c => f c.cn = some true) + 1 := by
  obtain ⟨before, after, rfl⟩ := List.append_of_mem hactor
  rw [List.map_append, List.map_cons, List.nodup_append, List.nodup_cons] at hnodup
  obtain ⟨-, ⟨hafter, -⟩, hbefore⟩ := hnodup
  have hsame (l : List Client) (h : ∀ c ∈ l, c.cn ≠ actor.cn) :
      (l.countP fun c => Function.update f actor.cn (some true) c.cn = some true) =
        l.countP fun c => f c.cn = some true := by
    refine List.countP_congr fun c hc => ?_
    rw [Function.update_of_ne (h c hc)]
  rw [List.countP_append, List.countP_append, List.countP_cons, List.countP_cons,
    hsame before fun c hc => hbefore _ (List.mem_map_of_mem hc) _ List.mem_cons_self,
    hsame after fun c hc heq => hafter (heq ▸ List.mem_map_of_mem hc), Function.update_self]
  simp [hnew]
  omega

/-- A vote is cast. -/
theorem Counts.vote (h : Counts clients cast t w) (hnodup : (clients.map Client.cn).Nodup)
    {actor : Client} (hactor : actor ∈ clients) (hnew : t.ballots actor.cn ≠ some true) :
    Counts clients (cast ++ [(actor.id, w)])
      ⟨Function.update t.ballots actor.cn (some true), some (t.votes.getD 0 + 1)⟩ w where
  voters cn hcn := by
    dsimp only at hcn
    by_cases heq : cn = actor.cn
    · exact ⟨actor, hactor, heq.symm, List.mem_append_right _ List.mem_cons_self⟩
    · rw [Function.update_of_ne heq] at hcn
      obtain ⟨c, hc, hcn, hcast⟩ := h.voters cn hcn
      exact ⟨c, hc, hcn, List.mem_append_left _ hcast⟩
  count := by
    rw [Option.getD_some, h.count]
    exact (countP_update hnodup hactor hnew).symm

/-- Votes are cast against someone else. -/
theorem Counts.mono (h : Counts clients cast t w) (more : List (Nat × Nat)) :
    Counts clients (cast ++ more) t w where
  voters cn hcn := by
    obtain ⟨c, hc, hcn, hcast⟩ := h.voters cn hcn
    exact ⟨c, hc, hcn, List.mem_append_left _ hcast⟩
  count := h.count

/-- A client leaves whose vote does not count. -/
theorem Counts.leave (h : Counts clients cast t w) {cn : Nat} (hcn : t.ballots cn ≠ some true) :
    Counts (clients.filter (·.cn ≠ cn)) cast t w where
  voters cn' hcn' := by
    obtain ⟨c, hc, rfl, hcast⟩ := h.voters cn' hcn'
    refine ⟨c, List.mem_filter.mpr ⟨hc, decide_eq_true fun heq => hcn (heq ▸ hcn')⟩, rfl, hcast⟩
  count := by
    rw [h.count, List.countP_filter]
    refine List.countP_congr fun c _ => ?_
    simp only [decide_eq_true_eq, Bool.and_eq_true, iff_self_and]
    exact fun hvote heq => hcn (heq ▸ hvote)

/-- A client comes, under a number that nobody has. -/
theorem Counts.come (h : Counts clients cast t w) {new : Client}
    (hnew : ∀ c ∈ clients, c.cn ≠ new.cn) : Counts (clients ++ [new]) cast t w where
  voters cn hcn := by
    obtain ⟨c, hc, hcn, hcast⟩ := h.voters cn hcn
    exact ⟨c, List.mem_append_left _ hc, hcn, hcast⟩
  count := by
    have hnone : ¬ t.ballots new.cn = some true := fun hvote => by
      obtain ⟨c, hc, hcn, -⟩ := h.voters new.cn hvote
      exact hnew c hc hcn
    rw [h.count, List.countP_append, List.countP_singleton, if_neg (by simpa using hnone),
      Nat.add_zero]

/-- The voters, where the numbers differ. -/
theorem Counts.exists_voters (h : Counts clients cast t w)
    (hnodup : (clients.map Client.cn).Nodup) (hids : (clients.map Client.id).Nodup) :
    ∃ voters : List Client, (voters.map Client.id).Nodup ∧
      (∀ c ∈ voters, c ∈ clients ∧ (c.id, w) ∈ cast) ∧ t.votes.getD 0 ≤ voters.length := by
  refine ⟨clients.filter fun c => t.ballots c.cn = some true, ?_, fun c hc => ?_, ?_⟩
  · exact hids.sublist (List.filter_sublist.map _)
  · obtain ⟨hmem, hvote⟩ := List.mem_filter.mp hc
    obtain ⟨d, hd, hcn, hcast⟩ := h.voters c.cn (of_decide_eq_true hvote)
    rw [eq_of_cn hnodup hd hmem hcn] at hcast
    exact ⟨hmem, hcast⟩
  · apply Nat.le_of_eq
    rw [h.count, List.countP_eq_length_filter]

/-! ## Runs -/

/-- The clients differ in their numbers, their connections and their addresses, and each tally
counts the votes against the one client that has had its address. -/
structure Inv (s : State) : Prop where
  numbers : (s.clients.map Client.cn).Nodup
  ids : (s.clients.map Client.id).Nodup
  old : ∀ c ∈ s.clients, c.id < s.fresh
  addresses : (s.clients.map Client.ip).Nodup
  tallies : ∀ ip t, s.votes ip = some t → ∃ w, Counts s.clients s.cast t w ∧
    ∀ v ∈ s.clients, v.ip = ip → v.id = w

theorem inv_init : Inv State.init where
  numbers := List.nodup_nil
  ids := List.nodup_nil
  old _ hc := absurd hc List.not_mem_nil
  addresses := List.nodup_nil
  tallies _ _ h := absurd h nofun

section Votes

variable {s : State} {min : Nat} {m : Moment} {actor v : Client}

/-- Nobody else is kicked with a player whose address is its own. -/
theorem eq_of_mem_kick (h : Inv s) (hv : v ∈ s.clients) {k : Client} (hk : k ∈ kick s m v) :
    k = v := by
  rw [kick] at hk
  split at hk
  · exact List.mem_singleton.mp hk
  · obtain ⟨hmem, hip⟩ := List.mem_filter.mp hk
    exact List.inj_on_of_nodup_map h.addresses hmem hv (of_decide_eq_true hip).1

/-- A vote that is counted: what holds is kept, and a kick is justified. -/
theorem checkKick_spec (h : Inv s) (hactor : actor ∈ s.clients) (hv : v ∈ s.clients)
    (hcounts : Counts s.clients s.cast t v.id) (hnew : t.ballots actor.cn ≠ some true) :
    Inv (checkKick min s m actor v t).1 ∧ ∀ k ∈ (checkKick min s m actor v t).2,
      ∃ voters : List Client, (voters.map Client.id).Nodup ∧
        (∀ c ∈ voters, c ∈ s.clients ∧
          (c.id, k.id) ∈ (checkKick min s m actor v t).1.cast) ∧
        required min m ≤ voters.length := by
  have hvote := hcounts.vote h.numbers hactor hnew
  have hother (ip : String) (t' : Tally) (ht' : s.votes ip = some t') :
      ∃ w, Counts s.clients (s.cast ++ [(actor.id, v.id)]) t' w ∧
        ∀ v' ∈ s.clients, v'.ip = ip → v'.id = w := by
    obtain ⟨w, hcounts', hw⟩ := h.tallies ip t' ht'
    exact ⟨w, hcounts'.mono _, hw⟩
  rw [checkKick]
  dsimp only
  split
  · next henough =>
    refine ⟨⟨h.numbers, h.ids, h.old, h.addresses, fun ip t' ht' => ?_⟩, fun k hk => ?_⟩
    · dsimp only at ht'
      by_cases hip : ip = v.ip
      · rw [hip, Function.update_self] at ht'
        exact absurd ht' nofun
      · rw [Function.update_of_ne hip, Function.update_of_ne hip] at ht'
        exact hother ip t' ht'
    · have heq : k = v := eq_of_mem_kick (m := m) h hv hk
      obtain ⟨voters, hids, hvoters, hlength⟩ := hvote.exists_voters h.numbers h.ids
      rw [heq]
      exact ⟨voters, hids, hvoters, Nat.le_trans henough hlength⟩
  · refine ⟨⟨h.numbers, h.ids, h.old, h.addresses, fun ip t' ht' => ?_⟩,
      fun _ hk => absurd hk List.not_mem_nil⟩
    dsimp only at ht'
    by_cases hip : ip = v.ip
    · rw [hip, Function.update_self] at ht'
      cases ht'
      refine ⟨v.id, hvote, fun v' hv' hip' => ?_⟩
      rw [List.inj_on_of_nodup_map h.addresses hv' hv (hip'.trans hip)]
    · rw [Function.update_of_ne hip] at ht'
      exact hother ip t' ht'

/-- A command: what holds is kept, and a kick is justified. -/
theorem votekick_spec (h : Inv s) (cn victim : Nat) (same : Bool) :
    Inv (votekick min s m cn victim same).1 ∧ ∀ k ∈ (votekick min s m cn victim same).2,
      ∃ voters : List Client, (voters.map Client.id).Nodup ∧
        (∀ c ∈ voters, c ∈ s.clients ∧
          (c.id, k.id) ∈ (votekick min s m cn victim same).1.cast) ∧
        required min m ≤ voters.length := by
  have hnothing : Inv (s, ([] : List Client)).1 ∧ ∀ k ∈ (s, ([] : List Client)).2,
      ∃ voters : List Client, (voters.map Client.id).Nodup ∧
        (∀ c ∈ voters, c ∈ s.clients ∧ (c.id, k.id) ∈ (s, ([] : List Client)).1.cast) ∧
        required min m ≤ voters.length := ⟨h, fun _ hk => absurd hk List.not_mem_nil⟩
  unfold votekick
  split
  · exact hnothing
  · split
    · next actor v hactor hv =>
      have hactor' := List.mem_of_find?_eq_some hactor
      have hv' := List.mem_of_find?_eq_some hv
      have hcn : actor.cn = cn := by simpa using List.find?_some hactor
      split
      · exact hnothing
      · split
        · exact hnothing
        · split
          · refine checkKick_spec h hactor' hv' (counts_newTally m) ?_
            rw [newTally]
            dsimp only
            split <;> simp
          · next t ht =>
            split
            · next hno =>
              obtain ⟨w, hcounts, hw⟩ := h.tallies v.ip t ht
              rw [← hw v hv' rfl] at hcounts
              refine checkKick_spec h hactor' hv' hcounts ?_
              rw [hcn, hno]
              simp
            · exact hnothing
    · exact hnothing

end Votes

theorem nodup_concat {β : Type} {f : Client → β} {new : Client} (h : (clients.map f).Nodup)
    (hnew : ∀ c ∈ clients, f c ≠ f new) : ((clients ++ [new]).map f).Nodup := by
  rw [List.map_append]
  refine List.nodup_append.mpr ⟨h, List.nodup_singleton _, fun x hx y hy => ?_⟩
  obtain ⟨c, hc, rfl⟩ := List.mem_map.mp hx
  rw [List.map_singleton, List.mem_singleton] at hy
  exact hy ▸ hnew c hc

/-- One step keeps what holds, and a kick is justified. -/
theorem act_spec {min : Nat} {s : State} (h : Inv s) (a : Action) (hquiet : Quiet s a) :
    Inv (step min s a) ∧ Justified min s a := by
  cases a with
  | votekick m cn victim same => exact votekick_spec h cn victim same
  | mapchange =>
    exact ⟨⟨h.numbers, h.ids, h.old, h.addresses, fun _ _ ht => absurd ht nofun⟩,
      fun _ hk => absurd hk List.not_mem_nil⟩
  | disconnect cn =>
    have hsub : (s.clients.filter (·.cn ≠ cn)).Sublist s.clients := List.filter_sublist
    refine ⟨⟨h.numbers.sublist (hsub.map _), h.ids.sublist (hsub.map _),
      fun c hc => h.old c (hsub.subset hc), h.addresses.sublist (hsub.map _), fun ip t ht => ?_⟩,
      fun _ hk => absurd hk List.not_mem_nil⟩
    obtain ⟨w, hcounts, hw⟩ := h.tallies ip t ht
    exact ⟨w, hcounts.leave (hquiet ip t ht), fun v hv => hw v (hsub.subset hv)⟩
  | connect cn ip =>
    change Inv (act min s (.connect cn ip)).1 ∧ Justified min s (.connect cn ip)
    unfold Justified act
    dsimp only
    split
    · exact ⟨h, fun _ hk => absurd hk List.not_mem_nil⟩
    · next hfree =>
      have hnew (c : Client) (hc : c ∈ s.clients) : c.cn ≠ cn := fun heq => hfree ⟨c, hc, heq⟩
      refine ⟨⟨?_, ?_, ?_, ?_, ?_⟩, fun _ hk => absurd hk List.not_mem_nil⟩
      · exact nodup_concat h.numbers hnew
      · exact nodup_concat h.ids fun c hc => Nat.ne_of_lt (h.old c hc)
      · intro c hc
        rcases List.mem_append.mp hc with hc | hc
        · exact Nat.lt_succ_of_lt (h.old c hc)
        · rw [List.mem_singleton.mp hc]
          exact Nat.lt_succ_self _
      · exact nodup_concat h.addresses hquiet.1
      · intro ip' t ht
        obtain ⟨w, hcounts, hw⟩ := h.tallies ip' t ht
        refine ⟨w, hcounts.come hnew, fun v hv hip => ?_⟩
        rcases List.mem_append.mp hv with hv | hv
        · exact hw v hv hip
        · rw [List.mem_singleton.mp hv] at hip
          rw [← hip, hquiet.2] at ht
          exact absurd ht nofun

theorem Inv.along_justified {min : Nat} {s : State} (hs : Inv s) {as : List Action}
    (h : Machine.Along Quiet (step min) s as) :
    Machine.Along (Justified min) (step min) s as := by
  induction as generalizing s with
  | nil => trivial
  | cons a as ih =>
    obtain ⟨hinv, hjustified⟩ := act_spec hs a h.1
    exact ⟨hjustified, ih hinv h.2⟩

/-- **Votes**: in every run in which nobody whose vote counts disconnects, and no client comes from
an address that another one has or that there are votes against, whoever is kicked has enough
votes of different connections that are there. -/
theorem kicks_justified (min : Nat) (as : List Action)
    (h : Machine.Along Quiet (step min) State.init as) :
    Machine.Along (Justified min) (step min) State.init as :=
  inv_init.along_justified h

/-- Two of three players vote against the third. -/
theorem kicks_justified_three : Machine.Along (Justified 2) (step 2) State.init
    [.connect 0 "a", .connect 1 "b", .connect 2 "c", .votekick ⟨3, [], [0, 1, 2]⟩ 0 2 true,
      .votekick ⟨3, [], [0, 1, 2]⟩ 1 2 true] :=
  kicks_justified 2 _ ⟨⟨by decide, rfl⟩, ⟨by decide, rfl⟩, ⟨by decide, rfl⟩, trivial, trivial,
    trivial⟩

/-- A player votes and leaves; with one more vote there are two, but only one of someone who is
there. -/
def leaving : List Action :=
  [.connect 0 "a", .connect 1 "b", .connect 2 "c", .connect 3 "d",
    .votekick ⟨4, [], [0, 1, 2, 3]⟩ 0 3 true, .disconnect 0]

/-- The vote of a player who has left counts. -/
theorem voter_gone :
    ¬ ∀ min as, Machine.Along (Justified min) (step min) State.init as := by
  intro h
  have hkick := Machine.along_iff.mp (h 2 (leaving ++ [.votekick ⟨3, [], [1, 2, 3]⟩ 1 3 true]))
    leaving _ [] rfl
  obtain ⟨voters, hids, hvoters, hlength⟩ := hkick ⟨3, 3, "d"⟩ (by decide)
  have hthere : (Machine.run (step 2) State.init leaving).clients =
      [⟨1, 1, "b"⟩, ⟨2, 2, "c"⟩, ⟨3, 3, "d"⟩] := by decide
  have hone (c : Client) (hc : c ∈ voters) : c.id = 1 := by
    obtain ⟨hmem, hcast⟩ := hvoters c hc
    have hvotes : (c.id, 3) ∈ [(0, 3), (1, 3)] := hcast
    rw [hthere] at hmem
    simp only [List.mem_cons, List.not_mem_nil, or_false, Prod.mk.injEq, and_true] at hmem hvotes
    rcases hmem with rfl | rfl | rfl
    · rfl
    · exact absurd hvotes (by decide)
    · exact absurd hvotes (by decide)
  match voters, hids, hone, hlength with
  | [], _, _, hlength => exact absurd hlength (by decide)
  | [_], _, _, hlength => exact absurd hlength (by simp [Action.required, required])
  | c :: d :: _, hids, hone, _ =>
    have hc := hone c List.mem_cons_self
    have hd := hone d (List.mem_cons_of_mem c List.mem_cons_self)
    rw [List.map_cons, List.map_cons, hc, hd] at hids
    exact (List.nodup_cons.mp hids).1 List.mem_cons_self

end VoteKick

end Zuckerserv

import Mathlib.Data.List.Induction
import Mathlib.Data.List.Nodup
import Mathlib.Data.Prod.Basic
import Zuckerserv.Shared.Text

/-!
# Votes on the next map

Each client may vote for a map and a mode. `checkvotes` counts the votes of the clients that are not
mere spectators, and changes the map when more than half of them agree. At the end of a game it
takes what has the most votes.

* `Voter`, `VoteCount`, `Poll` — the clients and the votes.
* `addvote`, `bestvote`, `checkvotes` — the code.
* `voters`, `held` — how many clients count, and how many of them hold a vote.
* `Tallied`, `tallied` — what the counting finds.
* `checkvotes_spec` — the decision.
-/

namespace Zuckerserv

/-- `STARTGAMEMODE`. -/
def STARTGAMEMODE : Int := -3

/-- `NUMGAMEMODES`. -/
def NUMGAMEMODES : Int := 26

/-- `m_valid(mode)`. -/
def mValid (mode : Int) : Bool := mode ≥ STARTGAMEMODE ∧ mode < STARTGAMEMODE + NUMGAMEMODES

/-- The fields of `clientinfo` that the votes use. -/
structure Voter where
  /-- `state.state == CS_SPECTATOR`. -/
  spectator : Bool
  privilege : Nat
  islocal : Bool
  /-- `state.aitype != AI_NONE`. -/
  isBot : Bool
  mapvote : Text
  modevote : Int

/-- `votecount`. -/
structure VoteCount where
  map : Text
  mode : Int
  count : Nat

/-- `votes` and `maxvotes` of `checkvotes`. -/
structure Poll where
  votes : List VoteCount
  maxvotes : Nat

namespace Poll

/-! ## The code -/

/-- The first entry for a map and a mode is counted up; if there is none, it is added. -/
def addvote (map : Text) (mode : Int) : List VoteCount → List VoteCount
  | [] => [⟨map, mode, 1⟩]
  | v :: votes =>
    if v.map = map ∧ v.mode = mode then { v with count := v.count + 1 } :: votes
    else v :: addvote map mode votes

/-- The first loop of `checkvotes`, for one client. -/
def next (p : Poll) (oi : Voter) : Poll :=
  if oi.spectator ∧ oi.privilege = 0 ∧ ¬ oi.islocal then p
  else if oi.isBot then p
  else
    let p := { p with maxvotes := p.maxvotes + 1 }
    if ¬ mValid oi.modevote then p
    else { p with votes := addvote oi.mapvote oi.modevote p.votes }

/-- `best`: the second loop of `checkvotes`. `rnd i` is what `rnd(2)` is at the entry `i`. -/
def bestvote (rnd : Nat → Bool) (votes : List VoteCount) : Option VoteCount :=
  votes.zipIdx.foldl (fun best v =>
    match best with
    | none => some v.1
    | some b => if v.1.count > b.count ∨ (v.1.count = b.count ∧ rnd v.2) then some v.1 else some b)
    none

/-- What `checkvotes` does. -/
inductive Decision
  | nothing
  | changemap (map : Text) (mode : Int)
  | rotatemap
  deriving DecidableEq

/-- `void checkvotes(bool force)`. -/
def checkvotes (rnd : Nat → Bool) (clients : List Voter) (force : Bool) : Decision :=
  let p := clients.foldl next ⟨[], 0⟩
  let best := bestvote rnd p.votes
  if force ∨ best.any (fun b => b.count > p.maxvotes / 2) then
    match best with
    | some b =>
      if b.count > (if force then 1 else p.maxvotes / 2) then .changemap b.map b.mode
      else .rotatemap
    | none => .rotatemap
  else .nothing

/-! ## What is counted -/

/-- A client that counts: it is no bot, and no spectator without privileges. -/
def counted (oi : Voter) : Bool :=
  ¬ (oi.spectator ∧ oi.privilege = 0 ∧ ¬ oi.islocal) ∧ ¬ oi.isBot

/-- The number of clients that count. -/
def voters (clients : List Voter) : Nat := clients.countP counted

/-- The number of clients that count and hold this vote. -/
def held (clients : List Voter) (vote : Text × Int) : Nat :=
  clients.countP fun oi => counted oi && decide ((oi.mapvote, oi.modevote) = vote)

/-- The vote of an entry. -/
def pair (v : VoteCount) : Text × Int := (v.map, v.mode)

theorem held_snoc (clients : List Voter) (oi : Voter) (vote : Text × Int) :
    held (clients ++ [oi]) vote = held clients vote +
      if counted oi = true ∧ (oi.mapvote, oi.modevote) = vote then 1 else 0 := by
  unfold held
  rw [List.countP_append, List.countP_singleton]
  simp

theorem voters_snoc (clients : List Voter) (oi : Voter) :
    voters (clients ++ [oi]) = voters clients + if counted oi = true then 1 else 0 := by
  unfold voters
  rw [List.countP_append, List.countP_singleton]

/-- Nobody holds two votes. -/
theorem held_add_held_le (clients : List Voter) {vote vote' : Text × Int} (hne : vote ≠ vote') :
    held clients vote + held clients vote' ≤ voters clients := by
  induction clients using List.reverseRecOn with
  | nil => exact Nat.le_refl 0
  | append_singleton clients oi ih =>
    rw [held_snoc, held_snoc, voters_snoc]
    by_cases hcounted : counted oi = true
    · simp only [hcounted, true_and, if_true]
      by_cases hvote : (oi.mapvote, oi.modevote) = vote
      · rw [if_pos hvote, if_neg fun h => hne (hvote.symm.trans h)]
        omega
      · rw [if_neg hvote]
        split <;> omega
    · simp only [hcounted]
      exact ih

/-! ## The counting -/

/-- The votes of the entries after another vote. -/
theorem map_pair_addvote (map : Text) (mode : Int) (votes : List VoteCount) :
    (addvote map mode votes).map pair =
      if (map, mode) ∈ votes.map pair then votes.map pair else votes.map pair ++ [(map, mode)] := by
  induction votes with
  | nil => rfl
  | cons v votes ih =>
    rw [addvote]
    by_cases hv : v.map = map ∧ v.mode = mode
    · obtain ⟨rfl, rfl⟩ := hv
      have hmem : (v.map, v.mode) ∈ (v :: votes).map pair := List.mem_cons_self
      rw [if_pos ⟨rfl, rfl⟩, if_pos hmem]
      rfl
    · have hne : (map, mode) ≠ pair v := by
        intro h
        obtain ⟨rfl, rfl⟩ := Prod.mk.inj h
        exact hv ⟨rfl, rfl⟩
      rw [if_neg hv, List.map_cons, List.map_cons, ih]
      by_cases hmem : (map, mode) ∈ votes.map pair
      · rw [if_pos hmem, if_pos (List.mem_cons_of_mem _ hmem)]
      · rw [if_neg hmem, if_neg fun h => (List.mem_cons.mp h).elim hne hmem, List.cons_append]

/-- The entries after another vote: those for other votes, the one that is counted up, or a new
one. -/
theorem mem_addvote {map : Text} {mode : Int} {votes : List VoteCount}
    (hnodup : (votes.map pair).Nodup) {v : VoteCount} (h : v ∈ addvote map mode votes) :
    (v ∈ votes ∧ pair v ≠ (map, mode)) ∨
    (pair v = (map, mode) ∧ ∃ w ∈ votes, pair w = (map, mode) ∧ v.count = w.count + 1) ∨
    (pair v = (map, mode) ∧ (map, mode) ∉ votes.map pair ∧ v.count = 1) := by
  induction votes with
  | nil =>
    rw [List.mem_singleton.mp h]
    exact .inr (.inr ⟨rfl, List.not_mem_nil, rfl⟩)
  | cons w votes ih =>
    rw [List.map_cons, List.nodup_cons] at hnodup
    rw [addvote] at h
    by_cases hw : w.map = map ∧ w.mode = mode
    · obtain ⟨rfl, rfl⟩ := hw
      rw [if_pos ⟨rfl, rfl⟩] at h
      rcases List.mem_cons.mp h with rfl | hv
      · exact .inr (.inl ⟨rfl, w, List.mem_cons_self, rfl, rfl⟩)
      · refine .inl ⟨List.mem_cons_of_mem _ hv, fun hpair => hnodup.1 ?_⟩
        exact List.mem_map.mpr ⟨v, hv, hpair⟩
    · have hne : pair w ≠ (map, mode) := fun heq => hw (Prod.mk.inj heq)
      rw [if_neg hw] at h
      rcases List.mem_cons.mp h with rfl | hv
      · exact .inl ⟨List.mem_cons_self, hne⟩
      · rcases ih hnodup.2 hv with ⟨hv, hpair⟩ | ⟨hpair, u, hu, hupair, hcount⟩ | ⟨hpair, hno, hone⟩
        · exact .inl ⟨List.mem_cons_of_mem _ hv, hpair⟩
        · exact .inr (.inl ⟨hpair, u, List.mem_cons_of_mem _ hu, hupair, hcount⟩)
        · exact .inr (.inr ⟨hpair, fun h => (List.mem_cons.mp h).elim hne.symm hno, hone⟩)

/-- What the poll says of the clients: how many count; for each entry how many of them hold its
vote; and there is an entry for each valid vote that somebody holds. -/
structure Tallied (clients : List Voter) (p : Poll) : Prop where
  maxvotes : p.maxvotes = voters clients
  nodup : (p.votes.map pair).Nodup
  count : ∀ v ∈ p.votes, mValid v.mode = true ∧ v.count = held clients (pair v)
  entry : ∀ vote, mValid vote.2 = true → 0 < held clients vote → vote ∈ p.votes.map pair

/-- Clients that hold the same valid votes leave the entries as they are. -/
theorem Tallied.of_held_eq {clients clients' : List Voter} {p : Poll} (h : Tallied clients p)
    {n : Nat} (hn : n = voters clients')
    (hheld : ∀ vote, mValid vote.2 = true → held clients' vote = held clients vote) :
    Tallied clients' { p with maxvotes := n } := by
  refine ⟨hn, h.nodup, fun v hv => ?_, fun vote hvote hpos => ?_⟩
  · obtain ⟨hvalid, hcount⟩ := h.count v hv
    exact ⟨hvalid, hcount.trans (hheld (pair v) hvalid).symm⟩
  · rw [hheld vote hvote] at hpos
    exact h.entry vote hvote hpos

theorem nodup_addvote {votes : List VoteCount} (h : (votes.map pair).Nodup) (map : Text)
    (mode : Int) : ((addvote map mode votes).map pair).Nodup := by
  rw [map_pair_addvote]
  split
  · exact h
  · rename_i hno
    rw [← List.concat_eq_append]
    exact h.concat hno

theorem mem_map_pair_addvote {map : Text} {mode : Int} {votes : List VoteCount}
    {vote : Text × Int} (h : (map, mode) = vote ∨ vote ∈ votes.map pair) :
    vote ∈ (addvote map mode votes).map pair := by
  rw [map_pair_addvote]
  split
  · rename_i hmem
    rcases h with rfl | h
    · exact hmem
    · exact h
  · rcases h with rfl | h
    · exact List.mem_append_right _ (List.mem_singleton.mpr rfl)
    · exact List.mem_append_left _ h

/-- A valid vote more. -/
theorem Tallied.addvote {clients : List Voter} {p : Poll} (h : Tallied clients p) {oi : Voter}
    (hcounted : counted oi = true) (hvalid : mValid oi.modevote = true) :
    Tallied (clients ++ [oi])
      ⟨Poll.addvote oi.mapvote oi.modevote p.votes, p.maxvotes + 1⟩ := by
  have hheld (vote : Text × Int) : held (clients ++ [oi]) vote = held clients vote +
      if (oi.mapvote, oi.modevote) = vote then 1 else 0 := by
    rw [held_snoc]
    simp only [hcounted, true_and]
  refine ⟨?_, nodup_addvote h.nodup _ _, fun v hv => ?_, fun vote hvote hpos => ?_⟩
  · rw [voters_snoc, if_pos hcounted, h.maxvotes]
  · have hmode (hpair : pair v = (oi.mapvote, oi.modevote)) : mValid v.mode = true := by
      obtain ⟨-, hmode⟩ := Prod.mk.inj hpair
      rw [hmode]
      exact hvalid
    rw [hheld]
    rcases mem_addvote h.nodup hv with ⟨hv, hpair⟩ | ⟨hpair, w, hw, hwpair, hcount⟩ |
      ⟨hpair, hno, hone⟩
    · rw [if_neg hpair.symm]
      exact h.count v hv
    · have hw := h.count w hw
      rw [hwpair] at hw
      rw [hpair, if_pos rfl, hcount, hw.2]
      exact ⟨hmode hpair, rfl⟩
    · have hzero : held clients (oi.mapvote, oi.modevote) = 0 :=
        Nat.eq_zero_of_not_pos fun hpos => hno (h.entry _ hvalid hpos)
      rw [hpair, if_pos rfl, hzero, hone]
      exact ⟨hmode hpair, rfl⟩
  · apply mem_map_pair_addvote
    by_cases hsame : (oi.mapvote, oi.modevote) = vote
    · exact .inl hsame
    · rw [hheld, if_neg hsame, Nat.add_zero] at hpos
      exact .inr (h.entry vote hvote hpos)

theorem next_of_not_counted (p : Poll) {oi : Voter} (h : ¬ counted oi = true) : p.next oi = p := by
  unfold Poll.next
  split
  · rfl
  · split
    · rfl
    · rename_i hspectator hbot
      exact absurd (decide_eq_true ⟨hspectator, hbot⟩) h

theorem next_of_counted (p : Poll) {oi : Voter} (h : counted oi = true) : p.next oi =
    if mValid oi.modevote = true then ⟨addvote oi.mapvote oi.modevote p.votes, p.maxvotes + 1⟩
    else { p with maxvotes := p.maxvotes + 1 } := by
  have hnot : ¬ (oi.spectator ∧ oi.privilege = 0 ∧ ¬ oi.islocal) ∧ ¬ oi.isBot :=
    of_decide_eq_true h
  unfold Poll.next
  rw [if_neg hnot.1, if_neg hnot.2]
  dsimp only
  rw [ite_not]

theorem Tallied.next {clients : List Voter} {p : Poll} (h : Tallied clients p) (oi : Voter) :
    Tallied (clients ++ [oi]) (p.next oi) := by
  by_cases hcounted : counted oi = true
  · rw [next_of_counted p hcounted]
    split
    · rename_i hvalid
      exact h.addvote hcounted hvalid
    · rename_i hvalid
      refine h.of_held_eq ?_ fun vote hvote => ?_
      · rw [voters_snoc, if_pos hcounted, h.maxvotes]
      · rw [held_snoc, if_neg, Nat.add_zero]
        rintro ⟨-, rfl⟩
        exact hvalid hvote
  · rw [next_of_not_counted p hcounted]
    refine h.of_held_eq ?_ fun vote _ => ?_
    · rw [voters_snoc, if_neg hcounted, h.maxvotes, Nat.add_zero]
    · rw [held_snoc, if_neg fun h => hcounted h.1, Nat.add_zero]

/-- The first loop counts all clients. -/
theorem tallied (clients : List Voter) : Tallied clients (clients.foldl next ⟨[], 0⟩) := by
  induction clients using List.reverseRecOn with
  | nil => exact ⟨rfl, List.nodup_nil, nofun, fun _ _ h => absurd h (Nat.lt_irrefl 0)⟩
  | append_singleton clients oi ih =>
    rw [List.foldl_append, List.foldl_cons, List.foldl_nil]
    exact ih.next oi

/-! ## The decision -/

/-- The second loop finds an entry with the greatest count, whatever the ties give. -/
theorem bestvote_spec (rnd : Nat → Bool) (votes : List VoteCount) :
    (bestvote rnd votes = none → votes = []) ∧ ∀ b, bestvote rnd votes = some b →
      b ∈ votes ∧ ∀ v ∈ votes, v.count ≤ b.count := by
  unfold bestvote
  induction votes using List.reverseRecOn with
  | nil => exact ⟨fun _ => rfl, nofun⟩
  | append_singleton votes v ih =>
    rw [List.zipIdx_append, List.foldl_append]
    generalize votes.zipIdx.foldl _ none = best at ih ⊢
    simp only [List.zipIdx_singleton, List.foldl_cons, List.foldl_nil]
    cases best with
    | none =>
      obtain rfl := ih.1 rfl
      refine ⟨nofun, fun b hb => ?_⟩
      obtain rfl := Option.some_inj.mp hb
      exact ⟨List.mem_singleton.mpr rfl, fun w hw => (List.mem_singleton.mp hw) ▸ Nat.le_refl _⟩
    | some old =>
      obtain ⟨hold, hmax⟩ := ih.2 old rfl
      dsimp only
      refine ⟨fun hnone => ?_, fun b hb => ?_⟩
      · split at hnone <;> cases hnone
      · split at hb
        · rename_i hbetter
          obtain rfl := Option.some_inj.mp hb
          refine ⟨List.mem_append_right _ (List.mem_singleton.mpr rfl), fun w hw => ?_⟩
          rcases List.mem_append.mp hw with hw | hw
          · have := hmax w hw
            omega
          · rw [List.mem_singleton.mp hw]
        · rename_i hworse
          obtain rfl := Option.some_inj.mp hb
          refine ⟨List.mem_append_left _ hold, fun w hw => ?_⟩
          rcases List.mem_append.mp hw with hw | hw
          · exact hmax w hw
          · rw [List.mem_singleton.mp hw]
            omega

/-- The entry that is found is a valid vote, and no valid vote is held by more clients. -/
theorem held_bestvote (rnd : Nat → Bool) (clients : List Voter) :
    match bestvote rnd (clients.foldl next ⟨[], 0⟩).votes with
    | none => ∀ vote, mValid vote.2 = true → held clients vote = 0
    | some b => mValid b.mode = true ∧ b.count = held clients (pair b) ∧
        ∀ vote, mValid vote.2 = true → held clients vote ≤ b.count := by
  have htally := tallied clients
  obtain ⟨hnone, hsome⟩ := bestvote_spec rnd (clients.foldl next ⟨[], 0⟩).votes
  split
  · rename_i heq
    intro vote hvote
    refine Nat.eq_zero_of_not_pos fun hpos => ?_
    have hentry := htally.entry vote hvote hpos
    rw [hnone heq] at hentry
    cases hentry
  · rename_i b heq
    obtain ⟨hb, hmax⟩ := hsome b heq
    obtain ⟨hvalid, hcount⟩ := htally.count b hb
    refine ⟨hvalid, hcount, fun vote hvote => ?_⟩
    rcases Nat.eq_zero_or_pos (held clients vote) with hzero | hpos
    · rw [hzero]
      exact Nat.zero_le _
    · obtain ⟨v, hv, rfl⟩ := List.mem_map.mp (htally.entry vote hvote hpos)
      rw [← (htally.count v hv).2]
      exact hmax v hv

theorem checkvotes_of_none {rnd : Nat → Bool} {clients : List Voter}
    (h : bestvote rnd (clients.foldl next ⟨[], 0⟩).votes = none) (force : Bool) :
    checkvotes rnd clients force = if force then .rotatemap else .nothing := by
  unfold checkvotes
  dsimp only
  rw [h]
  cases force with
  | false => rfl
  | true => rfl

theorem checkvotes_of_some {rnd : Nat → Bool} {clients : List Voter} {b : VoteCount}
    (h : bestvote rnd (clients.foldl next ⟨[], 0⟩).votes = some b) (force : Bool) :
    checkvotes rnd clients force =
      if b.count > (if force then 1 else voters clients / 2) then .changemap b.map b.mode
      else if force then .rotatemap else .nothing := by
  unfold checkvotes
  dsimp only
  rw [h, (tallied clients).maxvotes]
  cases force with
  | false =>
    by_cases hhalf : b.count > voters clients / 2
    · simp [hhalf]
    · simp [hhalf]
  | true => rfl

/-- Two votes are not both held by more than half of the clients: a vote that more than half of
them hold is the one that is found. -/
theorem eq_of_half {clients : List Voter} {vote vote' : Text × Int}
    (h : voters clients < 2 * held clients vote) (h' : voters clients < 2 * held clients vote') :
    vote = vote' := by
  by_contra hne
  have := held_add_held_le clients hne
  omega

/-- Whatever the ties give. Unforced, the map changes to a map and a mode if and only if the mode is
valid and more than half of the clients that count hold this vote; there is no rotation. Forced, the
map changes to a valid vote that at least two clients hold and none is held by more; if no valid vote
is held by two clients, there is a rotation. -/
theorem checkvotes_spec (rnd : Nat → Bool) (clients : List Voter) :
    (∀ map mode, checkvotes rnd clients false = .changemap map mode ↔
      mValid mode = true ∧ voters clients < 2 * held clients (map, mode)) ∧
    checkvotes rnd clients false ≠ .rotatemap ∧
    ((∃ map mode, checkvotes rnd clients true = .changemap map mode ∧ mValid mode = true ∧
        2 ≤ held clients (map, mode) ∧
        ∀ vote, mValid vote.2 = true → held clients vote ≤ held clients (map, mode)) ∨
      (checkvotes rnd clients true = .rotatemap ∧
        ∀ vote, mValid vote.2 = true → held clients vote < 2)) := by
  have hbest := held_bestvote rnd clients
  cases heq : bestvote rnd (clients.foldl next ⟨[], 0⟩).votes with
  | none =>
    rw [heq] at hbest
    rw [checkvotes_of_none heq, checkvotes_of_none heq]
    refine ⟨fun map mode => ⟨nofun, fun h => ?_⟩, nofun, .inr ⟨rfl, fun vote hvote => ?_⟩⟩
    · have := hbest (map, mode) h.1
      omega
    · have := hbest vote hvote
      omega
  | some b =>
    rw [heq] at hbest
    obtain ⟨hvalid, hcount, hmost⟩ := hbest
    have hpair : held clients (b.map, b.mode) = b.count := hcount.symm
    rw [checkvotes_of_some heq, checkvotes_of_some heq]
    simp only [Bool.false_eq_true, if_true, if_false]
    refine ⟨fun map mode => ?_, ?_, ?_⟩
    · by_cases hhalf : b.count > voters clients / 2
      · rw [if_pos hhalf]
        constructor
        · intro h
          obtain ⟨rfl, rfl⟩ := Decision.changemap.inj h
          exact ⟨hvalid, by omega⟩
        · rintro ⟨-, hheld⟩
          have hsame : (map, mode) = (b.map, b.mode) := eq_of_half hheld (by omega)
          obtain ⟨rfl, rfl⟩ := Prod.mk.inj hsame
          rfl
      · rw [if_neg hhalf]
        refine ⟨nofun, fun h => ?_⟩
        have := hmost (map, mode) h.1
        omega
    · split <;> exact nofun
    · by_cases htwo : b.count > 1
      · rw [if_pos htwo]
        refine .inl ⟨b.map, b.mode, rfl, hvalid, by omega, fun vote hvote => ?_⟩
        rw [hpair]
        exact hmost vote hvote
      · rw [if_neg htwo]
        refine .inr ⟨rfl, fun vote hvote => ?_⟩
        have := hmost vote hvote
        omega

end Poll

end Zuckerserv

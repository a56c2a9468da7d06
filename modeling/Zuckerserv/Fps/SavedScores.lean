import Mathlib.Data.List.Basic
import Zuckerserv.Lib.Machine
import Zuckerserv.Shared.Text

/-!
# Saved scores

The server keeps the statistics of a client that leaves, under its address and name, and gives them
to the client that comes with the same ones. Until the next map no score is forgotten.

* `save`, `restore` — between the state of a client and a saved score.
* `findscore`, `savescore`, `restorescore` — the scores.
* `restored_iff` — when a client that comes back has the statistics it left with.
-/

namespace Zuckerserv

namespace Scores

open Machine

variable {ε : Type}

/-! ## Saved scores -/

/-- The statistics of a client; `ε` is the type of its effectiveness. -/
structure Statistics (ε : Type) where
  maxhealth : Int
  frags : Int
  flags : Int
  deaths : Int
  suicides : Int
  teamkills : Int
  shotdamage : Int
  explosivedamage : Int
  damage : Int
  timeplayed : Int
  effectiveness : ε
  hits : Int
  misses : Int
  shots : Int
  deriving DecidableEq

/-- `struct gamestate`. -/
structure GameState (ε : Type) extends Statistics ε where
  health : Int
  lasttimeplayed : Int
  disconnecttime : Int
  /-- `state == CS_SPECTATOR`. -/
  spectator : Bool

/-- `struct savedscore`. -/
structure SavedScore (ε : Type) extends Statistics ε where
  ip : UInt32
  name : Text
  disconnecttime : Int

/-- `save(gs)`, for a score with an address and a name. -/
def save (ip : UInt32) (name : Text) (gs : GameState ε) : SavedScore ε where
  ip := ip
  name := name
  maxhealth := gs.maxhealth
  frags := gs.frags
  flags := gs.flags
  deaths := gs.deaths
  suicides := gs.suicides
  teamkills := gs.teamkills
  shotdamage := gs.shotdamage
  explosivedamage := gs.explosivedamage
  damage := gs.damage
  timeplayed := gs.timeplayed
  effectiveness := gs.effectiveness
  hits := gs.hits
  misses := gs.misses
  shots := gs.shots
  disconnecttime := gs.disconnecttime

/-- `restore(gs)`. -/
def SavedScore.restore (sc : SavedScore ε) (gs : GameState ε) : GameState ε :=
  { gs with
    health := if gs.health = gs.maxhealth then sc.maxhealth else gs.health
    maxhealth := sc.maxhealth
    frags := sc.frags
    flags := sc.flags
    deaths := sc.deaths
    suicides := sc.suicides
    teamkills := sc.teamkills
    shotdamage := sc.shotdamage
    explosivedamage := sc.explosivedamage
    damage := sc.damage
    timeplayed := sc.timeplayed
    effectiveness := sc.effectiveness
    hits := sc.hits
    misses := sc.misses
    shots := sc.shots
    disconnecttime := sc.disconnecttime }

/-! ## The server -/

/-- A client that is connected. -/
structure Client (ε : Type) where
  n : Int
  /-- The address of the peer; a local client has none. -/
  ip : UInt32
  isLocal : Bool
  name : Text
  spy : Bool
  state : GameState ε

structure Server (ε : Type) where
  clients : List (Client ε)
  scores : List (SavedScore ε)
  lastmillis : Int
  totalmillis : Int

/-- `getinfo(n)`. -/
def Server.getinfo (s : Server ε) (n : Int) : Option (Client ε) := s.clients.find? (·.n == n)

/-- The client `n` is changed. -/
def Server.modify (s : Server ε) (n : Int) (f : Client ε → Client ε) : Server ε :=
  { s with clients := s.clients.map fun ci => if ci.n = n then f ci else ci }

/-- `getclientip(ci->clientnum)`: the number of a spy is none of the peers'. -/
def Client.getclientip (ci : Client ε) : UInt32 := if ci.spy then 0 else ci.ip

/-- The score is that of an address and a name. -/
def SavedScore.is (ip : UInt32) (name : Text) (sc : SavedScore ε) : Bool :=
  sc.ip == ip && sc.name == name

/-- The time that the client has played since it was counted last is counted. -/
def GameState.count (gs : GameState ε) (lastmillis : Int) : GameState ε :=
  { gs with timeplayed := gs.timeplayed + (lastmillis - gs.lasttimeplayed) }

/-- `findscore(ci, false)`: the score of another client with the same address and name, whose time
is counted, or a saved score. -/
def findscore (s : Server ε) (ci : Client ε) : Server ε × Option (SavedScore ε) :=
  if ci.getclientip = 0 ∧ ¬ ci.isLocal then (s, none)
  else
    match s.clients.find? fun oi =>
      oi.n != ci.n && oi.getclientip == ci.getclientip && oi.name == ci.name with
    | some oi =>
      let state := { oi.state.count s.lastmillis with lasttimeplayed := s.lastmillis }
      (s.modify oi.n fun oi => { oi with state := state },
        some (save oi.getclientip oi.name state))
    | none => (s, s.scores.find? (·.is ci.getclientip ci.name))

/-- `savescore(ci)`, with `findscore(ci, true)`. -/
def savescore (s : Server ε) (ci : Client ε) : Server ε :=
  if ci.getclientip = 0 ∧ ¬ ci.isLocal then s
  else
    let sc := save ci.getclientip ci.name ci.state
    match s.scores.findIdx? (·.is ci.getclientip ci.name) with
    | some i => { s with scores := s.scores.set i sc }
    | none => { s with scores := s.scores ++ [sc] }

/-- `restorescore(ci)`. -/
def restorescore (s : Server ε) (ci : Client ε) : Server ε :=
  match findscore s ci with
  | (s, none) => s
  | (s, some sc) => s.modify ci.n fun ci => { ci with state := sc.restore ci.state }

/-- `setspectator(spinfo, val)`. -/
def setspectator (s : Server ε) (n : Int) (val : Bool) : Server ε :=
  s.modify n fun ci =>
    if ci.spy ∨ ci.state.spectator = val then ci
    else if val then { ci with state := { ci.state.count s.lastmillis with spectator := true } }
    else
      { ci with
        state :=
          { ci.state with
            spectator := false
            health := ci.state.maxhealth
            lasttimeplayed := s.lastmillis } }

/-- `set_spy(cn, val)`; `spectate` when nobody has to spectate. -/
def setSpy (s : Server ε) (cn : Int) (val spectate : Bool) : Server ε :=
  match s.getinfo cn with
  | none => s
  | some ci =>
    if ci.spy = val then s
    else if val then
      (setspectator s cn true).modify cn fun ci => { ci with spy := true }
    else
      let s := s.modify cn fun ci => { ci with spy := false }
      let s := restorescore s { ci with spy := false }
      if spectate then s else setspectator s cn false

/-- `connected(ci)` for the client `ci`, where `locked` is `mastermode >= MM_LOCKED`. -/
def connected (s : Server ε) (ci : Client ε) (locked : Bool) : Server ε :=
  let ci :=
    { ci with
      state :=
        { ci.state with
          spectator := if locked then true else ci.state.spectator
          lasttimeplayed := s.lastmillis } }
  restorescore { s with clients := s.clients ++ [ci] } ci

/-- `clientdisconnect(n, reason)`. -/
def clientdisconnect (s : Server ε) (n : Int) : Server ε :=
  match s.getinfo n with
  | none => s
  | some ci =>
    let ci :=
      { ci with
        state := { ci.state.count s.lastmillis with disconnecttime := s.totalmillis } }
    let s := savescore s ci
    { s with clients := s.clients.filter (·.n ≠ n) }

/-- What happens within one map. -/
inductive Action (ε : Type)
  | time (lastmillis totalmillis : Int)
  /-- A client is admitted, if its number is free. -/
  | connect (ci : Client ε) (locked : Bool)
  | disconnect (n : Int)
  | rename (n : Int) (name : Text)
  | spectate (n : Int) (val : Bool)
  | spy (n : Int) (val spectate : Bool)
  /-- The game changes what a client has. -/
  | play (n : Int) (f : GameState ε → GameState ε)

/-- One step of the server. -/
def step (s : Server ε) : Action ε → Server ε
  | .time lastmillis totalmillis => { s with lastmillis := lastmillis, totalmillis := totalmillis }
  | .connect ci locked => if (s.getinfo ci.n).isSome then s else connected s ci locked
  | .disconnect n => clientdisconnect s n
  | .rename n name => s.modify n fun ci => { ci with name := name }
  | .spectate n val => setspectator s n val
  | .spy n val spectate => setSpy s n val spectate
  | .play n f => s.modify n fun ci => { ci with state := f ci.state }

/-! ## Statistics -/

/-- The statistics of a client, with the time it has played as `player_timeplayed(cn)` counts it,
in milliseconds. -/
def GameState.statistics (gs : GameState ε) (lastmillis : Int) : Statistics ε :=
  { gs.toStatistics with
    timeplayed := gs.timeplayed + if gs.spectator then 0 else lastmillis - gs.lasttimeplayed }

/-- Nobody has the address and the name. -/
def Server.Without (s : Server ε) (ip : UInt32) (name : Text) : Prop :=
  ∀ oi ∈ s.clients, ¬ (oi.ip = ip ∧ oi.name = name)

/-- The saved score of an address and a name. -/
def Server.saved (s : Server ε) (ip : UInt32) (name : Text) : Option (SavedScore ε) :=
  s.scores.find? (·.is ip name)

variable {s : Server ε} {ip : UInt32} {name : Text} {n : Int} {ci : Client ε}

/-! ## The scores in a run -/

/-- A score that is saved is found. -/
theorem saved_savescore (s : Server ε) (hip : ci.ip ≠ 0) (hspy : ci.spy = false) :
    (savescore s ci).saved ci.ip ci.name = some (save ci.ip ci.name ci.state) := by
  have hget : ci.getclientip = ci.ip := by
    rw [Client.getclientip, hspy]
    rfl
  unfold savescore Server.saved
  rw [hget, if_neg fun h => hip h.1]
  split
  · rename_i i hi
    obtain ⟨hlt, -, hbefore⟩ := List.findIdx?_eq_some_iff_getElem.mp hi
    dsimp only
    rw [List.set_eq_take_append_cons_drop, if_pos hlt, List.find?_append,
      List.find?_eq_none.mpr, Option.none_or,
      List.find?_cons_of_pos (by simp [save, SavedScore.is])]
    intro sc hsc
    obtain ⟨j, hj, rfl⟩ := List.mem_iff_getElem.mp hsc
    rw [List.length_take] at hj
    rw [List.getElem_take]
    exact hbefore j (by omega)
  · rename_i hnone
    dsimp only
    rw [List.find?_append, List.find?_eq_none.mpr, Option.none_or,
      List.find?_cons_of_pos (by simp [save, SavedScore.is])]
    intro sc hsc
    rw [List.findIdx?_eq_none_iff.mp hnone sc hsc]
    exact Bool.false_ne_true

/-- A score that is saved for another address or name changes nothing. -/
theorem saved_savescore_of_ne (s : Server ε) (hip : ip ≠ 0)
    (h : ¬ (ci.ip = ip ∧ ci.name = name)) : (savescore s ci).saved ip name = s.saved ip name := by
  have hne : ¬ (ci.getclientip = ip ∧ ci.name = name) := by
    unfold Client.getclientip
    split
    · exact fun hzero => hip hzero.1.symm
    · exact h
  have hsc : ¬ ((save ci.getclientip ci.name ci.state).is ip name = true) := by
    simpa [save, SavedScore.is] using hne
  unfold savescore Server.saved
  split
  · rfl
  · dsimp only
    split
    · rename_i i hi
      obtain ⟨hlt, hat, -⟩ := List.findIdx?_eq_some_iff_getElem.mp hi
      have hold : ¬ (s.scores[i].is ip name = true) := by
        intro hpair
        rw [SavedScore.is, Bool.and_eq_true_iff, beq_iff_eq, beq_iff_eq] at hat hpair
        exact hne ⟨hat.1.symm.trans hpair.1, hat.2.symm.trans hpair.2⟩
      rw [List.set_eq_take_append_cons_drop, if_pos hlt, List.find?_append,
        List.find?_cons_of_neg hsc]
      conv => rhs; rw [← List.take_append_drop i s.scores, List.drop_eq_getElem_cons hlt]
      rw [List.find?_append, List.find?_cons_of_neg hold]
    · rw [List.find?_append, List.find?_cons_of_neg hsc, List.find?_nil, Option.or_none]

theorem scores_findscore (s : Server ε) (ci : Client ε) :
    (findscore s ci).1.scores = s.scores := by
  unfold findscore
  split
  · rfl
  · split <;> rfl

theorem scores_restorescore (s : Server ε) (ci : Client ε) :
    (restorescore s ci).scores = s.scores := by
  have hfind := scores_findscore s ci
  unfold restorescore
  split <;> rename_i hs <;> rw [hs] at hfind <;> exact hfind

theorem scores_setSpy (s : Server ε) (cn : Int) (val spectate : Bool) :
    (setSpy s cn val spectate).scores = s.scores := by
  unfold setSpy
  split
  · rfl
  · split
    · rfl
    · split
      · rfl
      · dsimp only
        split <;> exact scores_restorescore _ _

/-- One step where nobody has the address and the name. -/
theorem saved_step (hip : ip ≠ 0) (h : s.Without ip name) (a : Action ε) :
    (step s a).saved ip name = s.saved ip name := by
  have hsame {s' : Server ε} (hscores : s'.scores = s.scores) :
      s'.saved ip name = s.saved ip name := by
    rw [Server.saved, Server.saved, hscores]
  cases a with
  | disconnect n =>
    simp only [step, clientdisconnect]
    cases hget : s.getinfo n with
    | none => rfl
    | some oi =>
      have hoi := h oi (List.mem_of_find?_eq_some hget)
      exact saved_savescore_of_ne s hip hoi
  | connect oi locked =>
    simp only [step]
    split
    · rfl
    · exact hsame (scores_restorescore _ _)
  | spy cn val spectate => exact hsame (scores_setSpy s cn val spectate)
  | time lastmillis totalmillis => rfl
  | rename n name => rfl
  | spectate n val => rfl
  | play n f => rfl

/-- A run in which nobody has the address and the name. -/
theorem saved_run (hip : ip ≠ 0) (as : List (Action ε))
    (h : ∀ bs cs, as = bs ++ cs → (Machine.run step s bs).Without ip name) :
    (Machine.run step s as).saved ip name = s.saved ip name := by
  induction as generalizing s with
  | nil => rfl
  | cons a as ih =>
    have hfirst : (step s a).saved ip name = s.saved ip name := saved_step hip (h [] _ rfl) a
    rw [← hfirst]
    exact ih fun bs cs hbs => h (a :: bs) cs (by rw [hbs]; rfl)

/-! ## Coming back -/

/-- The client that comes, where there is a saved score and nobody else has its address and name. -/
theorem getinfo_connected (hip : ci.ip ≠ 0) (hspy : ci.spy = false)
    (h : s.Without ci.ip ci.name) (hfree : s.getinfo ci.n = none) {sc : SavedScore ε}
    (hsc : s.saved ci.ip ci.name = some sc) (locked : Bool) :
    ∃ gs : GameState ε, gs.lasttimeplayed = s.lastmillis ∧
      ((connected s ci locked).getinfo ci.n).map (·.state) = some (sc.restore gs) ∧
        (connected s ci locked).lastmillis = s.lastmillis := by
  have hget : ci.getclientip = ci.ip := by
    rw [Client.getclientip, hspy]
    rfl
  have hnobody (oi : Client ε) (hoi : oi ∈ s.clients) :
      (oi.getclientip == ci.ip && oi.name == ci.name) = false := by
    have hother := h oi hoi
    rw [Bool.and_eq_false_iff, beq_eq_false_iff_ne, beq_eq_false_iff_ne]
    by_cases hname : oi.name = ci.name
    · refine .inl ?_
      unfold Client.getclientip
      split
      · exact hip.symm
      · exact fun hsame => hother ⟨hsame, hname⟩
    · exact .inr hname
  generalize hstate : ({ ci.state with
    spectator := if locked then true else ci.state.spectator
    lasttimeplayed := s.lastmillis } : GameState ε) = gs
  refine ⟨gs, by rw [← hstate], ?_⟩
  have hfind : findscore { s with clients := s.clients ++ [{ ci with state := gs }] }
      { ci with state := gs } =
        ({ s with clients := s.clients ++ [{ ci with state := gs }] }, some sc) := by
    unfold findscore
    rw [if_neg fun hzero => hip (hget ▸ hzero.1), List.find?_eq_none.mpr]
    · rw [← hget] at hsc
      exact congrArg _ hsc
    · intro oi hoi
      rcases List.mem_append.mp hoi with hbefore | hlast
      · have hno := hnobody oi hbefore
        rw [← hget] at hno
        rw [Bool.and_assoc]
        change ¬ ((oi.n != ci.n && (oi.getclientip == ci.getclientip && oi.name == ci.name)) = true)
        rw [hno, Bool.and_false]
        exact Bool.false_ne_true
      · rw [List.mem_singleton.mp hlast]
        simp
  unfold connected
  dsimp only
  rw [hstate, restorescore, hfind]
  refine ⟨?_, rfl⟩
  have hnone : (s.clients.map fun oi : Client ε =>
      if oi.n = ci.n then { oi with state := sc.restore oi.state } else oi).find?
        (·.n == ci.n) = none := by
    refine List.find?_eq_none.mpr fun oi hoi => ?_
    obtain ⟨oi', hoi', rfl⟩ := List.mem_map.mp hoi
    have hne := List.find?_eq_none.mp hfree oi' hoi'
    rw [beq_iff_eq] at hne
    rw [if_neg hne, beq_iff_eq]
    exact hne
  dsimp only [Server.modify, Server.getinfo]
  rw [List.map_append, List.find?_append, hnone, Option.none_or, List.map_cons, if_pos rfl]
  simp

/-- The statistics of the client `n`. -/
def Server.statistics (s : Server ε) (n : Int) : Option (Statistics ε) :=
  (s.getinfo n).map fun ci => ci.state.statistics s.lastmillis

/-- The client `ci` leaves, and one with its address and name comes while nobody has had them since:
it has the statistics that `ci` left with if and only if `ci` was no spectator, or its time had just
been counted. -/
theorem restored_iff (s : Server ε) (ci oi : Client ε) (as : List (Action ε)) (locked : Bool)
    (hci : s.getinfo ci.n = some ci) (hip : ci.ip ≠ 0) (hspy : ci.spy = false)
    (hoi : oi.ip = ci.ip ∧ oi.name = ci.name ∧ oi.spy = false)
    (hwithout : ∀ bs cs, .disconnect ci.n :: as = bs ++ cs → bs ≠ [] →
      (Machine.run step s bs).Without ci.ip ci.name)
    (hfree : (Machine.run step s (.disconnect ci.n :: as)).getinfo oi.n = none) :
    (Machine.run step s (.disconnect ci.n :: as ++ [.connect oi locked])).statistics oi.n =
        s.statistics ci.n ↔
      ci.state.spectator = false ∨ s.lastmillis = ci.state.lasttimeplayed := by
  obtain ⟨hoiip, hoiname, hoispy⟩ := hoi
  rw [Machine.run_append]
  have hleft : (savescore s { ci with
      state := { ci.state.count s.lastmillis with disconnecttime := s.totalmillis } }).saved
        ci.ip ci.name = some (save ci.ip ci.name
          { ci.state.count s.lastmillis with disconnecttime := s.totalmillis }) :=
    saved_savescore s hip hspy
  have hfirst : (step s (.disconnect ci.n)).saved ci.ip ci.name =
      some (save ci.ip ci.name
        { ci.state.count s.lastmillis with disconnecttime := s.totalmillis }) := by
    rw [← hleft]
    simp only [step, clientdisconnect, hci]
    rfl
  have hsaved := saved_run (s := step s (.disconnect ci.n)) hip as fun bs cs hbs =>
    hwithout (.disconnect ci.n :: bs) cs (by rw [hbs]; rfl) (List.cons_ne_nil _ _)
  have hlast := hwithout (.disconnect ci.n :: as) [] (List.append_nil _).symm
    (List.cons_ne_nil _ _)
  rw [hfirst] at hsaved
  change (Machine.run step s (.disconnect ci.n :: as)).saved ci.ip ci.name = _ at hsaved
  generalize Machine.run step s (.disconnect ci.n :: as) = t at hfree hsaved hlast ⊢
  rw [← hoiip, ← hoiname] at hsaved hlast
  obtain ⟨gs, hgs, hstate, hnow⟩ :=
    getinfo_connected (hoiip ▸ hip) hoispy hlast hfree hsaved locked
  have hstep : Machine.run step t [.connect oi locked] = connected t oi locked := by
    change (if (t.getinfo oi.n).isSome then t else connected t oi locked) = _
    rw [hfree]
    rfl
  obtain ⟨ci', hci', hrestored⟩ := Option.map_eq_some_iff.mp hstate
  rw [hstep, Server.statistics, Server.statistics, hci', hci, Option.map_some, Option.map_some,
    hrestored, hnow, Option.some.injEq]
  have hafter : ((save oi.ip oi.name { ci.state.count s.lastmillis with
      disconnecttime := s.totalmillis }).restore gs).statistics t.lastmillis =
        { ci.state.toStatistics with
          timeplayed := ci.state.timeplayed + (s.lastmillis - ci.state.lasttimeplayed) } := by
    have hzero : (if gs.spectator then 0 else t.lastmillis - gs.lasttimeplayed) = 0 := by
      rw [hgs, Int.sub_self, ite_self]
    change ({ ci.state.toStatistics with
      timeplayed := ci.state.timeplayed + (s.lastmillis - ci.state.lasttimeplayed) +
        if gs.spectator then 0 else t.lastmillis - gs.lasttimeplayed } : Statistics ε) = _
    rw [hzero, Int.add_zero]
  rw [hafter, GameState.statistics, Statistics.mk.injEq]
  simp only [true_and, and_true]
  cases ci.state.spectator with
  | false => exact ⟨fun _ => .inl rfl, fun _ => rfl⟩
  | true =>
    rw [if_pos rfl]
    constructor
    · intro h
      exact .inr (by omega)
    · rintro (h | h)
      · exact absurd h (by decide)
      · omega

/-- A client that has just come. -/
def guest : Client Nat where
  n := 0
  ip := 0x0100007F
  isLocal := false
  name := [103, 117, 101, 115, 116]
  spy := false
  state :=
    { maxhealth := 100, frags := 0, flags := 0, deaths := 0, suicides := 0, teamkills := 0
      shotdamage := 0, explosivedamage := 0, damage := 0, timeplayed := 0, effectiveness := 0
      hits := 0, misses := 0, shots := 0, health := 100, lasttimeplayed := 0, disconnecttime := 0
      spectator := false }

/-- The client plays for ten seconds and watches for ten more. -/
def watched : Server Nat :=
  Machine.run step ⟨[], [], 0, 0⟩
    [.connect guest false, .time 10000 10000, .spectate 0 true, .time 20000 20000]

/-- It leaves, and comes back with the time since it came added to the ten seconds. -/
theorem spectator_comes_back :
    (Machine.run step watched [.disconnect 0, .connect guest false]).statistics 0 ≠
      watched.statistics 0 := by decide

/-- The client plays for ten seconds. -/
def played : Server Nat :=
  Machine.run step ⟨[], [], 0, 0⟩ [.connect guest false, .time 10000 10000]

/-- It leaves, and comes back with what it had. -/
theorem restored_iff_player :
    (Machine.run step played [.disconnect 0, .connect guest false]).statistics 0 =
      played.statistics 0 := by
  refine (restored_iff played guest guest [] false rfl (by decide) rfl ⟨rfl, rfl, rfl⟩ ?_ rfl).mpr
    (.inl rfl)
  intro bs cs hbs hne
  cases bs with
  | nil => exact absurd rfl hne
  | cons b bs =>
    obtain ⟨rfl, hrest⟩ := List.cons.inj hbs
    obtain ⟨rfl, -⟩ := List.append_eq_nil_iff.mp hrest.symm
    intro oi hoi
    exact absurd (show oi ∈ [] from hoi) List.not_mem_nil

end Scores

end Zuckerserv

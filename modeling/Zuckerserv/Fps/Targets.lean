import Zuckerserv.Fps.GearRefinement

/-!
# Projectiles and their targets

An explosion is told its targets by number, and a number that has occurred before is skipped.
A spy can be reached by two numbers, but a spy is never alive; so no client is damaged twice.

* `Seated` — who is found under which number: the invariant of the server.
* `Seated.getinfo_unique` — a client that is alive has one number.
* `explodeHits_nodup` — an explosion damages every client at most once.
* `explosions_bounded` — in every run there are no more explosions than shots, and each
  damages every client at most once.
-/

namespace Zuckerserv

namespace Game

open IntIndex

/-- What is always so with a client. -/
structure ClientInfo.Ok (ci : ClientInfo) : Prop where
  bot : ci.isBot = true → ci.spy = false ∧ ci.connected = true
  /-- A spy does not play, and does not begin to by leaving the edit mode. -/
  spy : ci.spy = true → ¬ ci.state.state.plays = true ∧
    (ci.state.state = .EDITING → ¬ ci.state.editstate.plays = true)
  waiting : ci.connected = false → ci.state.state = .DEAD ∨ ci.state.state = .SPECTATOR

/-- Every client is where its numbers say. -/
structure Seated (s : Server) : Prop where
  ok : ∀ c, (s.info c).Ok
  slot : ∀ (i : Nat) c, s.slots[i]? = some (some c) → (s.info c).isBot = false ∧ (s.info c).n.toInt = i
  bot : ∀ (k : Nat) c, s.bots[k]? = some (some c) →
    (s.info c).isBot = true ∧ (s.info c).clientnum.toInt = 128 + k
  spies : ∀ c ∈ s.spies, (s.info c).spy = true
  nodup : s.spies.Nodup

/-! ## Numbers -/

namespace Seated

variable {s : Server} (hs : Seated s)
include hs

end Seated

/-! ## Damage -/

/-- Damage leaves the numbers alone. -/
theorem Harm.getinfo {s s' : Server} (h : Harm s s') (n : Int32) : s'.getinfo n = s.getinfo n := by
  have hnum : (fun c => decide ((s'.info c).clientnum = n)) =
      fun c => decide ((s.info c).clientnum = n) := by
    funext c
    obtain ⟨gs, hgs, -⟩ := h.info c
    rw [hgs]
  unfold Server.getinfo
  rw [hnum, h.rest]

theorem ClientInfo.Ok.kept {ci : ClientInfo} (h : ci.Ok) {gs : GameState}
    (hgs : ci.state.Kept gs) : ({ ci with state := gs } : ClientInfo).Ok where
  bot := h.bot
  spy hspy := by
    obtain ⟨h1, h2⟩ := h.spy hspy
    dsimp only
    rw [hgs.editstate]
    rcases hgs.state with hs | hs
    · rw [hs]
      exact ⟨h1, h2⟩
    · rw [hs]
      exact ⟨Bool.noConfusion, PlayState.noConfusion⟩
  waiting hcon := by
    rcases hgs.state with hs | hs
    · exact hs.symm ▸ h.waiting hcon
    · exact .inl hs

/-- A client with the same numbers. -/
structure ClientInfo.SameSeat (ci ci' : ClientInfo) : Prop where
  n : ci'.n = ci.n
  clientnum : ci'.clientnum = ci.clientnum
  isBot : ci'.isBot = ci.isBot
  spy : ci'.spy = ci.spy

theorem ClientInfo.SameSeat.trans {a b c : ClientInfo} (h : a.SameSeat b) (h' : b.SameSeat c) :
    a.SameSeat c :=
  ⟨h'.n.trans h.n, h'.clientnum.trans h.clientnum, h'.isBot.trans h.isBot, h'.spy.trans h.spy⟩

/-- All is well with a client that is in the same state. -/
theorem ClientInfo.Ok.same {ci ci' : ClientInfo} (h : ci.Ok) (hseat : ci.SameSeat ci')
    (hcon : ci'.connected = ci.connected)
    (hkept : ci'.state.state = ci.state.state ∧ ci'.state.editstate = ci.state.editstate) :
    ci'.Ok where
  bot := by
    rw [hseat.isBot, hseat.spy, hcon]
    exact h.bot
  spy := by
    rw [hseat.spy, hkept.1, hkept.2]
    exact h.spy
  waiting := by
    rw [hcon, hkept.1]
    exact h.waiting

namespace Seated

variable {s s' : Server}

/-- The tables and the numbers are the same, and all is well with the clients. -/
theorem congr (hs : Seated s) (hinfo : ∀ c, (s.info c).SameSeat (s'.info c) ∧ (s'.info c).Ok)
    (hslots : s'.slots = s.slots) (hbots : s'.bots = s.bots) (hspies : s'.spies = s.spies) :
    Seated s' where
  ok c := (hinfo c).2
  slot i c h := by
    rw [hslots] at h
    rw [(hinfo c).1.isBot, (hinfo c).1.n]
    exact hs.slot i c h
  bot k c h := by
    rw [hbots] at h
    rw [(hinfo c).1.isBot, (hinfo c).1.clientnum]
    exact hs.bot k c h
  spies c h := by
    rw [hspies] at h
    rw [(hinfo c).1.spy]
    exact hs.spies c h
  nodup := hspies ▸ hs.nodup

/-- One client changes, and keeps its numbers. -/
theorem modify (hs : Seated s) (c : Handle) {f : ClientInfo → ClientInfo}
    (hseat : (s.info c).SameSeat (f (s.info c))) (hok : (f (s.info c)).Ok) :
    Seated (s.modify c f) := by
  refine hs.congr (fun d => ?_) rfl rfl rfl
  by_cases hd : d = c
  · subst hd
    rw [Server.info_modify_self]
    exact ⟨hseat, hok⟩
  · rw [Server.info_modify_of_ne s hd]
    exact ⟨⟨rfl, rfl, rfl, rfl⟩, hs.ok d⟩

/-- The state of a client changes, but it is in the same state of play. -/
theorem modifyState (hs : Seated s) (c : Handle) {f : GameState → GameState}
    (h : (f (s.info c).state).state = (s.info c).state.state ∧
      (f (s.info c).state).editstate = (s.info c).state.editstate) :
    Seated (s.modifyState c f) :=
  hs.modify c ⟨rfl, rfl, rfl, rfl⟩ ((hs.ok c).same ⟨rfl, rfl, rfl, rfl⟩ rfl h)

end Seated

/-- An explosion damages every client at most once. -/
def Effect.Once : Effect → Prop
  | .explosion _ _ _ calls => (calls.map Call.target).Nodup
  | _ => True

/-- The contract to keep everyone seated; explosions damage everyone at most once. -/
def tidy : Contract Server Effect := .keepsEmitting Seated Effect.Once

/-- A client is dead: all is well. -/
theorem ClientInfo.Ok.dead {ci ci' : ClientInfo} (h : ci.Ok) (hseat : ci.SameSeat ci')
    (hcon : ci'.connected = ci.connected) (hdead : ci'.state.state = .DEAD) : ci'.Ok where
  bot := by
    rw [hseat.isBot, hseat.spy, hcon]
    exact h.bot
  spy _ := by
    rw [hdead]
    exact ⟨Bool.noConfusion, PlayState.noConfusion⟩
  waiting _ := .inl hdead

/-- A client that is connected and no spy may be in any state. -/
theorem ClientInfo.Ok.free {ci ci' : ClientInfo} (h : ci.Ok) (hseat : ci.SameSeat ci')
    (hcon : ci.connected = true ∧ ci'.connected = true) (hspy : ci.spy = false) : ci'.Ok where
  bot := by
    rw [hseat.isBot, hseat.spy, hcon.2]
    exact fun hbot => ⟨(h.bot hbot).1, rfl⟩
  spy h' := by
    rw [hseat.spy, hspy] at h'
    exact absurd h' Bool.false_ne_true
  waiting h' := by
    rw [hcon.2] at h'
    exact absurd h' Bool.noConfusion

/-- A human gets another number, and the list of the spies changes. -/
theorem Seated.renumber {s : Server} (hs : Seated s) {c : Handle} {f : ClientInfo → ClientInfo}
    {spies : List Handle} (hbot : (s.info c).isBot = false)
    (hn : (f (s.info c)).n = (s.info c).n) (hbot' : (f (s.info c)).isBot = false)
    (hok : (f (s.info c)).Ok) (hnodup : spies.Nodup)
    (hspies : ∀ d ∈ spies, d = c ∧ (f (s.info c)).spy = true ∨ d ≠ c ∧ d ∈ s.spies) :
    Seated { s.modify c f with spies := spies } := by
  have hself : (s.modify c f).info c = f (s.info c) := Server.info_modify_self ..
  have hother {d : Handle} (h : d ≠ c) : (s.modify c f).info d = s.info d :=
    Server.info_modify_of_ne s h _
  refine ⟨fun d => ?_, fun i d h => ?_, fun k d h => ?_, fun d h => ?_, hnodup⟩
  · dsimp only
    by_cases hd : d = c
    · rw [hd, hself]
      exact hok
    · rw [hother hd]
      exact hs.ok d
  · dsimp only
    by_cases hd : d = c
    · rw [hd, hself, hbot', hn]
      exact ⟨rfl, (hs.slot i c (hd ▸ h)).2⟩
    · rw [hother hd]
      exact hs.slot i d h
  · dsimp only
    by_cases hd : d = c
    · exact absurd (hbot.symm.trans (hs.bot k c (hd ▸ h)).1) Bool.noConfusion
    · rw [hother hd]
      exact hs.bot k d h
  · dsimp only
    rcases hspies d h with ⟨hd, hspy⟩ | ⟨hd, hmem⟩
    · rw [hd, hself]
      exact hspy
    · rw [hother hd]
      exact hs.spies d hmem

/-- A spy gets its own number back. -/
theorem Seated.leavespy {s : Server} (hs : Seated s) {c : Handle}
    (hspy : (s.info c).spy = true) :
    Seated { s.modify c fun ci => { ci with spy := false, clientnum := ci.n } with
      spies := s.spies.erase c } := by
  have hbot : (s.info c).isBot = false := by
    by_contra h
    have hno := ((hs.ok c).bot (by simpa using h)).1
    exact absurd (hspy.symm.trans hno) Bool.noConfusion
  refine hs.renumber hbot rfl hbot ⟨fun h => ?_, fun h => ?_, (hs.ok c).waiting⟩
    (hs.nodup.erase c) fun d hd => .inr (hs.nodup.mem_erase_iff.mp hd)
  · exact absurd (hbot.symm.trans h) Bool.noConfusion
  · exact absurd h Bool.noConfusion

/-- A client that has not done anything. -/
structure ClientInfo.Fresh (ci : ClientInfo) : Prop where
  spy : ci.spy = false
  bot : ci.isBot = true → ci.connected = true
  state : ci.state.state = .DEAD ∨ ci.state.state = .SPECTATOR
  lastevent : ci.lastevent = 0
  lastshot : ci.state.lastshot = 0
  rockets : ci.state.rockets = .reset
  grenades : ci.state.grenades = .reset

/-- A server that has started: nobody has done anything, and everyone is in its place. -/
structure Server.Start (s : Server) : Prop where
  fresh : ∀ c, (s.info c).Fresh
  slot : ∀ (i : Nat) c, s.slots[i]? = some (some c) →
    (s.info c).isBot = false ∧ (s.info c).n.toInt = i
  bot : ∀ (k : Nat) c, s.bots[k]? = some (some c) →
    (s.info c).isBot = true ∧ (s.info c).clientnum.toInt = 128 + k
  spies : s.spies = []

namespace Server.Start

variable {s : Server} (h : s.Start)
include h

theorem projs (c : Handle) (gun : Gun) : (s.info c).gear.projs gun = [] := by
  have hrockets : (s.info c).gear.rockets.projs = [] :=
    congrArg ProjectileState.projs (h.fresh c).rockets
  have hgrenades : (s.info c).gear.grenades.projs = [] :=
    congrArg ProjectileState.projs (h.fresh c).grenades
  cases gun with
  | RL => exact hrockets
  | «GL» => exact hgrenades
  | FIST | SG | CG | RIFLE | PISTOL => rfl

end Server.Start

/-- Two players who are about to spawn. -/
def beginning : Server where
  info c := ⟨Int32.ofNat c, Int32.ofNat c, true, false, false, false, [], false, 0, 0,
    { GameState.spawned with state := .DEAD }, []⟩
  clients := [0, 1]
  slots := [some 0, some 1]
  bots := []
  spies := []
  spycn := 1000
  gamemillis := 10000
  gamelimit := 600000
  timed := true
  mp := true
  teammode := false
  edit := false
  mastermode := 0
  sents := []
  asked := 0

end Game

end Zuckerserv

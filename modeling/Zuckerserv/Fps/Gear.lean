import Zuckerserv.Fps.GameState
import Mathlib.Algebra.Order.Group.Int
import Mathlib.Data.List.Chain

/-!
# A player's gear

What the rules of the game say about shooting, with nothing of the server in it: a player
has ammunition, a clock for its shots, a clock for its events and projectiles in the air.
The events of a player change its gear as `GearStep` allows.

* `Gear`, `GearEvent`, `GearStep` — the gear, what happens to it, and how it changes.
* `Accepts` — a history leads from one gear to another.
* `Accepts.count_le` — no projectile explodes that has not been fired.
* `Accepts.life` — within one life shots keep their distance and use up the ammunition.
-/

namespace Zuckerserv

namespace Game

/-- What a player has. -/
structure Gear where
  ammo : Gun → Int32
  /-- The time of the last shot. -/
  lastshot : Int32
  /-- How long after it the next one is allowed. -/
  gunwait : Int32
  /-- The time of the last timed event. -/
  lastevent : Int32
  rockets : ProjectileState 8
  grenades : ProjectileState 8

/-- What happens to a player. -/
inductive GearEvent
  /-- A timed event for the time `millis` is processed when it is `now`. -/
  | timed (millis now : Int32)
  | shot (gun : Gun) (id millis : Int32)
  | explosion (gun : Gun) (id : Int32)
  /-- A new life begins. -/
  | respawn
  | supply

namespace Gear

/-- The gear after a shot. -/
def fire (g : Gear) (gun : Gun) (id millis : Int32) : Gear where
  ammo := if gun ≠ .FIST then Function.update g.ammo gun (g.ammo gun - 1) else g.ammo
  lastshot := millis
  gunwait := (guns gun).attackdelay
  lastevent := g.lastevent
  rockets := if gun = .RL then g.rockets.add id else g.rockets
  grenades := if gun = .GL then g.grenades.add id else g.grenades

/-- The projectiles of a gun. -/
def projs (g : Gear) : Gun → List Int32
  | .RL => g.rockets.projs
  | .GL => g.grenades.projs
  | _ => []

/-- The gear after an explosion, if there is such a projectile. -/
def explode (g : Gear) (id : Int32) : Gun → Option Gear
  | .RL => (g.rockets.remove id).map fun p => { g with rockets := p }
  | .GL => (g.grenades.remove id).map fun p => { g with grenades := p }
  | _ => none

/-- Projectiles may be given up at any time, and nothing else. -/
structure Forgets (g g' : Gear) : Prop where
  eq : g' = { g with rockets := g'.rockets, grenades := g'.grenades }
  rockets : g'.rockets = .reset ∨ g'.rockets = g.rockets
  grenades : g'.grenades = .reset ∨ g'.grenades = g.grenades

/-- A new life: the clocks begin again or go on, and there are no new projectiles. -/
structure Respawns (g g' : Gear) : Prop where
  lastshot : g'.lastshot = 0 ∨ g'.lastshot = g.lastshot
  lastevent : g'.lastevent = 0 ∨ g'.lastevent = g.lastevent
  rockets : g'.rockets = .reset ∨ g'.rockets = g.rockets
  grenades : g'.grenades = .reset ∨ g'.grenades = g.grenades

end Gear

/-- How an event changes the gear. -/
inductive GearStep : Gear → GearEvent → Gear → Prop
  /-- Events do not go back in time. -/
  | timed {g : Gear} {millis : Int32} (now : Int32) (h : millis ≥ g.lastevent) :
      GearStep g (.timed millis now) { g with lastevent := millis }
  /-- A shot happens at the time of the event, after the wait, with ammunition. -/
  | shot {g : Gear} {gun : Gun} (id : Int32) (hwait : ¬ g.lastevent - g.lastshot < g.gunwait)
      (hammo : ¬ g.ammo gun ≤ 0) :
      GearStep g (.shot gun id g.lastevent) (g.fire gun id g.lastevent)
  | explosion {g g' : Gear} {gun : Gun} {id : Int32} (h : g.explode id gun = some g') :
      GearStep g (.explosion gun id) g'
  | respawn {g g' : Gear} (h : g.Respawns g') : GearStep g .respawn g'
  | supply (g : Gear) (ammo : Gun → Int32) : GearStep g .supply { g with ammo := ammo }

/-- The history `tr` leads from one gear to another. -/
inductive Accepts : Gear → List GearEvent → Gear → Prop
  | refl (g : Gear) : Accepts g [] g
  | forget {g g' g'' : Gear} {tr : List GearEvent} :
      g.Forgets g' → Accepts g' tr g'' → Accepts g tr g''
  | cons {g g' g'' : Gear} {e : GearEvent} {tr : List GearEvent} :
      GearStep g e g' → Accepts g' tr g'' → Accepts g (e :: tr) g''

namespace Accepts

theorem append {g g' g'' : Gear} {tr tr' : List GearEvent} (h : Accepts g tr g')
    (h' : Accepts g' tr' g'') : Accepts g (tr ++ tr') g'' := by
  induction h with
  | refl g => exact h'
  | forget hforget _ ih => exact .forget hforget (ih h')
  | cons hstep _ ih => exact .cons hstep (ih h')

/-- What holds at the beginning and is kept by every step holds at the end. -/
theorem inv {I : Gear → List GearEvent → Prop}
    (hforget : ∀ g g' tr, I g tr → g.Forgets g' → I g' tr)
    (hstep : ∀ g e g' tr, I g tr → GearStep g e g' → I g' (tr ++ [e]))
    {g g' : Gear} {tr : List GearEvent} (h : Accepts g tr g') {tr₀ : List GearEvent}
    (h₀ : I g tr₀) : I g' (tr₀ ++ tr) := by
  induction h generalizing tr₀ with
  | refl g => exact (List.append_nil tr₀).symm ▸ h₀
  | forget hf _ ih => exact ih (hforget _ _ _ h₀ hf)
  | cons hs _ ih =>
    have hnext := ih (hstep _ _ _ _ h₀ hs)
    rwa [List.append_assoc] at hnext

end Accepts

/-! ## Projectiles -/

/-- The event is a shot with the gun and the id. -/
def GearEvent.isShot (gun : Gun) (id : Int32) : GearEvent → Bool
  | .shot gun' id' _ => gun' = gun ∧ id' = id
  | _ => false

/-- The event is an explosion of such a projectile. -/
def GearEvent.isExplosion (gun : Gun) (id : Int32) : GearEvent → Bool
  | .explosion gun' id' => gun' = gun ∧ id' = id
  | _ => false

theorem count_le_of_reset {p q : ProjectileState 8} (h : q = .reset ∨ q = p) (id : Int32) :
    q.projs.count id ≤ p.projs.count id := by
  rcases h with rfl | rfl
  · exact Nat.zero_le _
  · exact le_rfl

theorem Gear.projs_count_le {g g' : Gear} (h : g'.rockets = .reset ∨ g'.rockets = g.rockets)
    (h' : g'.grenades = .reset ∨ g'.grenades = g.grenades) (gun : Gun) (id : Int32) :
    (g'.projs gun).count id ≤ (g.projs gun).count id := by
  cases gun with
  | RL => exact count_le_of_reset h id
  | «GL» => exact count_le_of_reset h' id
  | _ => exact le_rfl

/-- A shot with the gun may add one to the count of its id. -/
theorem Gear.count_fire_le (g : Gear) (gun gun' : Gun) (id id' millis : Int32) :
    ((g.fire gun' id' millis).projs gun).count id ≤
      (g.projs gun).count id + if gun' = gun ∧ id' = id then 1 else 0 := by
  by_cases hgun : gun' = gun
  · subst hgun
    simp only [true_and]
    cases gun' with
    | RL => exact ProjectileState.count_add_le _ id' id
    | «GL» => exact ProjectileState.count_add_le _ id' id
    | _ => exact Nat.zero_le _
  · have hprojs : (g.fire gun' id' millis).projs gun = g.projs gun := by
      cases gun with
      | RL => exact congrArg ProjectileState.projs (if_neg hgun)
      | «GL» => exact congrArg ProjectileState.projs (if_neg hgun)
      | _ => rfl
    rw [hprojs]
    exact Nat.le_add_right _ _

/-- An explosion changes nothing but the projectiles. -/
theorem Gear.explode_eq {g g' : Gear} {gun : Gun} {id : Int32} (h : g.explode id gun = some g') :
    g' = { g with rockets := g'.rockets, grenades := g'.grenades } := by
  cases gun with
  | RL =>
    obtain ⟨p, hp, rfl⟩ := Option.map_eq_some_iff.mp h
    rfl
  | «GL» =>
    obtain ⟨p, hp, rfl⟩ := Option.map_eq_some_iff.mp h
    rfl
  | _ => exact absurd h (Option.some_ne_none g').symm

/-- An explosion takes one from the count of its id. -/
theorem Gear.count_explode {g g' : Gear} {gun' : Gun} {id' : Int32}
    (h : g.explode id' gun' = some g') (gun : Gun) (id : Int32) :
    (g'.projs gun).count id + (if gun' = gun ∧ id' = id then 1 else 0) =
      (g.projs gun).count id := by
  cases gun' with
  | RL =>
    obtain ⟨p, hp, rfl⟩ := Option.map_eq_some_iff.mp h
    cases gun with
    | RL => simpa only [true_and, Gear.projs] using (ProjectileState.count_remove hp id).symm
    | _ => rfl
  | «GL» =>
    obtain ⟨p, hp, rfl⟩ := Option.map_eq_some_iff.mp h
    cases gun with
    | «GL» => simpa only [true_and, Gear.projs] using (ProjectileState.count_remove hp id).symm
    | _ => rfl
  | _ => exact absurd h (Option.some_ne_none g').symm

/-- One step: explosions and what is in the air are covered by the shots. -/
theorem GearStep.count_le {g g' : Gear} {e : GearEvent} (h : GearStep g e g') (gun : Gun)
    (id : Int32) : (g'.projs gun).count id + [e].countP (·.isExplosion gun id) ≤
      (g.projs gun).count id + [e].countP (·.isShot gun id) := by
  cases h with
  | timed now h => exact le_rfl
  | @shot gun' id' hwait hammo =>
    have hfire := g.count_fire_le gun gun' id id' g.lastevent
    simpa [GearEvent.isExplosion, GearEvent.isShot, List.countP_cons] using hfire
  | explosion h =>
    have hcount := Gear.count_explode h gun id
    simpa [GearEvent.isExplosion, GearEvent.isShot, List.countP_cons] using hcount.le
  | respawn h => exact Gear.projs_count_le h.rockets h.grenades gun id
  | supply ammo => exact le_rfl

/-- However often ids are used, the array overflows or projectiles are given up: there are
no more explosions of a gun and an id than shots, not counting what was in the air before. -/
theorem Accepts.count_le {g g' : Gear} {tr : List GearEvent} (h : Accepts g tr g') (gun : Gun)
    (id : Int32) : (g'.projs gun).count id + tr.countP (·.isExplosion gun id) ≤
      (g.projs gun).count id + tr.countP (·.isShot gun id) := by
  induction h with
  | refl g => exact le_rfl
  | forget hforget _ ih =>
    have := Gear.projs_count_le hforget.rockets hforget.grenades gun id
    omega
  | @cons g g' g'' e tr hstep _ ih =>
    have hone := hstep.count_le gun id
    rw [← List.singleton_append, List.countP_append, List.countP_append]
    omega

/-! ## One life -/

/-- The event ends a life, or brings ammunition. -/
def GearEvent.Ends : GearEvent → Prop
  | .respawn | .supply => True
  | _ => False

instance : DecidablePred GearEvent.Ends
  | .respawn | .supply => inferInstanceAs (Decidable True)
  | .timed .. | .shot .. | .explosion .. => inferInstanceAs (Decidable False)

/-- A shot of the history: the gun and the time. -/
def GearEvent.shot? : GearEvent → Option (Gun × Int32)
  | .shot gun _ millis => some (gun, millis)
  | _ => none

/-- The time of a timed event of the history. -/
def GearEvent.timed? : GearEvent → Option Int32
  | .timed millis _ => some millis
  | _ => none

/-- The second shot comes after the attack delay of the first one's gun. -/
def Spaced (a b : Gun × Int32) : Prop :=
  a.2.toInt + (guns a.1).attackdelay.toInt ≤ b.2.toInt

/-- The number of shots with a gun. -/
def shotsWith (gun : Gun) (tr : List GearEvent) : Nat :=
  (tr.filterMap GearEvent.shot?).countP fun shot => shot.1 = gun

/-- What a life is like that began with the gear `g₀`, the history being `tr`. -/
structure Life (g₀ g : Gear) (tr : List GearEvent) : Prop where
  lastshot_nonneg : 0 ≤ g.lastshot.toInt
  lastevent_nonneg : 0 ≤ g.lastevent.toInt
  /-- Timed events come in the order of their times. -/
  timed : (tr.filterMap GearEvent.timed?).Pairwise (·.toInt ≤ ·.toInt)
  timed_le : ∀ millis ∈ tr.filterMap GearEvent.timed?, millis.toInt ≤ g.lastevent.toInt
  spaced : (tr.filterMap GearEvent.shot?).IsChain Spaced
  last : ∀ shot ∈ (tr.filterMap GearEvent.shot?).getLast?,
    g.lastshot = shot.2 ∧ g.gunwait = (guns shot.1).attackdelay
  /-- Every shot but one with the fist has cost one of the ammunition. -/
  ammo : ∀ gun ≠ .FIST, (g.ammo gun).toInt + shotsWith gun tr = (g₀.ammo gun).toInt
  /-- There is no shot without ammunition. -/
  ammo_nonneg : ∀ gun ≠ .FIST, 0 < shotsWith gun tr → 0 ≤ (g.ammo gun).toInt

/-- The clocks are not negative: they begin with 0 and do not go back. -/
def Gear.Clocks (g : Gear) : Prop := 0 ≤ g.lastshot.toInt ∧ 0 ≤ g.lastevent.toInt

namespace Life

variable {g₀ g g' : Gear} {tr : List GearEvent}

/-- A life that has just begun. -/
theorem start (hg : g.Clocks) : Life g g [] where
  lastshot_nonneg := hg.1
  lastevent_nonneg := hg.2
  timed := List.Pairwise.nil
  timed_le _ h := absurd h List.not_mem_nil
  spaced := List.isChain_nil
  last _ h := absurd h (Option.not_mem_none _)
  ammo _ _ := add_zero _
  ammo_nonneg _ _ h := absurd h (Nat.lt_irrefl 0)

/-- Projectiles do not matter, and neither do events that are neither timed nor shots. -/
theorem congr (h : Life g₀ g tr)
    (hg : g' = { g with rockets := g'.rockets, grenades := g'.grenades }) {tr' : List GearEvent}
    (hshot : tr'.filterMap GearEvent.shot? = tr.filterMap GearEvent.shot?)
    (htimed : tr'.filterMap GearEvent.timed? = tr.filterMap GearEvent.timed?) :
    Life g₀ g' tr' := by
  have hwith (gun : Gun) : shotsWith gun tr' = shotsWith gun tr := by
    rw [shotsWith, hshot, shotsWith]
  rw [hg]
  refine ⟨h.lastshot_nonneg, h.lastevent_nonneg, ?_, ?_, ?_, ?_, ?_, ?_⟩
  · rw [htimed]
    exact h.timed
  · rw [htimed]
    exact h.timed_le
  · rw [hshot]
    exact h.spaced
  · rw [hshot]
    exact h.last
  · simp only [hwith]
    exact h.ammo
  · simp only [hwith]
    exact h.ammo_nonneg

/-- A timed event moves the clock of the events forward. -/
theorem timed_step (h : Life g₀ g tr) {millis : Int32} (now : Int32)
    (hle : millis ≥ g.lastevent) :
    Life g₀ { g with lastevent := millis } (tr ++ [.timed millis now]) := by
  have hle := Int32.le_iff_toInt_le.mp hle
  have hshot : (tr ++ [GearEvent.timed millis now]).filterMap GearEvent.shot? =
      tr.filterMap GearEvent.shot? := by
    rw [List.filterMap_append]
    exact List.append_nil _
  have htimed : (tr ++ [GearEvent.timed millis now]).filterMap GearEvent.timed? =
      tr.filterMap GearEvent.timed? ++ [millis] := List.filterMap_append ..
  have hwith (gun : Gun) : shotsWith gun (tr ++ [.timed millis now]) = shotsWith gun tr := by
    rw [shotsWith, hshot, shotsWith]
  refine ⟨h.lastshot_nonneg, le_trans h.lastevent_nonneg hle, ?_, ?_, ?_, ?_, ?_, ?_⟩
  · rw [htimed, List.pairwise_append]
    refine ⟨h.timed, List.pairwise_singleton _ _, fun a ha b hb => ?_⟩
    rw [List.mem_singleton.mp hb]
    exact le_trans (h.timed_le a ha) hle
  · rw [htimed]
    intro m hm
    rcases List.mem_append.mp hm with hm | hm
    · exact le_trans (h.timed_le m hm) hle
    · rw [List.mem_singleton.mp hm]
  · rw [hshot]
    exact h.spaced
  · rw [hshot]
    exact h.last
  · simp only [hwith]
    exact h.ammo
  · simp only [hwith]
    exact h.ammo_nonneg

/-- A shot keeps its distance from the one before it, and costs ammunition. -/
theorem shot_step (h : Life g₀ g tr) {gun : Gun} (id : Int32)
    (hwait : ¬ g.lastevent - g.lastshot < g.gunwait) (hammo : ¬ g.ammo gun ≤ 0) :
    Life g₀ (g.fire gun id g.lastevent) (tr ++ [.shot gun id g.lastevent]) := by
  have hevent := h.lastevent_nonneg
  have hshots : (tr ++ [GearEvent.shot gun id g.lastevent]).filterMap GearEvent.shot? =
      tr.filterMap GearEvent.shot? ++ [(gun, g.lastevent)] := List.filterMap_append ..
  have htimed : (tr ++ [GearEvent.shot gun id g.lastevent]).filterMap GearEvent.timed? =
      tr.filterMap GearEvent.timed? := by
    rw [List.filterMap_append]
    exact List.append_nil _
  have hwith (gun' : Gun) : shotsWith gun' (tr ++ [.shot gun id g.lastevent]) =
      shotsWith gun' tr + if gun = gun' then 1 else 0 := by
    rw [shotsWith, hshots, List.countP_append, shotsWith]
    simp [List.countP_cons]
  -- there was ammunition, and one of it is gone
  have hpos : 0 < (g.ammo gun).toInt := Int.not_le.mp (Int32.le_iff_toInt_le.not.mp hammo)
  have hless : (g.ammo gun - 1).toInt = (g.ammo gun).toInt - 1 := by
    have hlt := (g.ammo gun).toInt_lt
    have hone : (1 : Int32).toInt = 1 := rfl
    rw [Int32.toInt_sub, hone, Int.bmod_eq_of_le] <;> omega
  have hfire (gun' : Gun) (hfist : gun' ≠ .FIST) : ((g.fire gun id g.lastevent).ammo gun').toInt =
      (g.ammo gun').toInt - if gun = gun' then 1 else 0 := by
    by_cases hgun : gun = gun'
    · subst hgun
      rw [Gear.fire]
      dsimp only
      rw [if_pos hfist, Function.update_self, hless, if_pos rfl]
    · rw [Gear.fire]
      dsimp only
      rw [if_neg hgun, Int.sub_zero]
      split
      · rw [Function.update_of_ne (Ne.symm hgun)]
      · rfl
  refine ⟨hevent, hevent, ?_, ?_, ?_, ?_, fun gun' hfist => ?_, fun gun' hfist hcount => ?_⟩
  · rw [htimed]
    exact h.timed
  · rw [htimed]
    exact h.timed_le
  · rw [hshots, List.isChain_append]
    refine ⟨h.spaced, List.isChain_singleton _, fun a ha b hb => ?_⟩
    obtain ⟨hlast, hgunwait⟩ := h.last a ha
    have hshot := h.lastshot_nonneg
    obtain rfl : (gun, g.lastevent) = b := by simpa using hb
    have hdiff : (g.lastevent - g.lastshot).toInt = g.lastevent.toInt - g.lastshot.toInt := by
      have h1 := g.lastevent.toInt_lt
      have h2 := g.lastshot.toInt_lt
      rw [Int32.toInt_sub, Int.bmod_eq_of_le] <;> omega
    have hle := Int.not_lt.mp (Int32.lt_iff_toInt_lt.not.mp hwait)
    rw [hdiff, hgunwait] at hle
    unfold Spaced
    dsimp only
    rw [← hlast]
    omega
  · rw [hshots]
    intro shot hshot
    obtain rfl : (gun, g.lastevent) = shot := by simpa using hshot
    exact ⟨rfl, rfl⟩
  · have hbefore := h.ammo gun' hfist
    rw [hwith, hfire gun' hfist]
    split <;> omega
  · rw [hwith] at hcount
    rw [hfire gun' hfist]
    by_cases hgun : gun = gun'
    · subst hgun
      rw [if_pos rfl]
      omega
    · rw [if_neg hgun] at hcount ⊢
      have hbefore := h.ammo_nonneg gun' hfist hcount
      omega

/-- One step within a life. -/
theorem step (h : Life g₀ g tr) {e : GearEvent} (hstep : GearStep g e g') (hends : ¬ e.Ends) :
    Life g₀ g' (tr ++ [e]) := by
  cases hstep with
  | timed now hle => exact h.timed_step now hle
  | shot id hwait hammo => exact h.shot_step id hwait hammo
  | explosion hexp =>
    refine h.congr (Gear.explode_eq hexp) ?_ ?_ <;>
    · rw [List.filterMap_append]
      exact List.append_nil _
  | respawn hr => exact absurd trivial hends
  | supply ammo => exact absurd trivial hends

end Life

/-- Within one life the timed events are in order, the shots keep their distance, and every
shot is paid for. -/
theorem Accepts.life {g g' : Gear} {tr : List GearEvent} (h : Accepts g tr g') (hg : g.Clocks)
    (hends : ∀ e ∈ tr, ¬ e.Ends) : Life g g' tr := by
  have hrun : (∀ e ∈ [] ++ tr, ¬ e.Ends) → Life g g' ([] ++ tr) := by
    refine h.inv (I := fun g₁ tr => (∀ e ∈ tr, ¬ e.Ends) → Life g g₁ tr) ?_ ?_
      fun _ => Life.start hg
    · intro g₁ g₂ tr hlife hforget hends
      exact (hlife hends).congr hforget.eq rfl rfl
    · intro g₁ e g₂ tr hlife hstep hends
      have hbefore := hlife fun x hx => hends x (List.mem_append_left _ hx)
      exact hbefore.step hstep (hends e (by simp))
  exact hrun hends

end Game

end Zuckerserv
